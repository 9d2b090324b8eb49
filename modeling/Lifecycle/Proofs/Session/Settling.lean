import Lifecycle.Proofs.Kernel.Downtime
import Lifecycle.Proofs.Session.Wakeup

/-! Waking and filling slots in any session, whatever its table has been through. Waking
is over once it has been done: those left asleep sleep on processes that run, and these it
has not touched. -/

namespace Lifecycle

namespace Kernel

theorem live_wake (k : Kernel) (b : BlockId) : (k.wake b).2.live = k.live := by
  unfold wake
  split
  · exact live_release ..
  · unfold collect
    dsimp only
    rw [live_release, live_release]
    rfl

theorem size_wake (k : Kernel) (b : BlockId) : (k.wake b).2.blocks.size = k.blocks.size := by
  unfold wake
  split
  · exact (quiet_release ..).size
  · rw [(quiet_collect ..).size, size_update]

theorem quiet_wake_of_reaped {k : Kernel} {b : BlockId} (hr : (k.block b).reaped = true) :
    k.Quiet (k.wake b).2 := by
  rw [wake, if_pos hr]
  exact quiet_release ..

/-- Nothing breaks when sleepers are woken in a table that is shut down. -/
theorem Down.wake {k : Kernel} (h : k.Down) (b : BlockId) :
    (k.wake b).2.Down ∧ (k.wake b).2.fault = k.fault := by
  unfold Kernel.wake
  split
  · exact h.release b
  · have hupdate : (k.update b fun x => { x with reaped := true }).Down :=
      ⟨h.live, h.valid, h.free⟩
    obtain ⟨hd, hf⟩ := hupdate.release b
    obtain ⟨hd', hf'⟩ := hd.release b
    unfold collect
    dsimp only
    refine ⟨hd', ?_⟩
    rw [hf', hf]
    rfl

end Kernel

namespace Session

/-- What a sleeper hears of the failed fork of its target. -/
def forsaken (s : Session) (w : ParkedWait) : Woken :=
  w.finish (.error (.noSuchProcess (signedPid (s.kernel.block w.block).pid)))

variable {s : Session}

/-! ### Waking -/

/-- What waking one sleeper keeps, waking them all keeps. -/
theorem foldl_wakeOne_of {P : Kernel → Prop}
    (hw : ∀ {k : Kernel} (b : BlockId), P k → P (k.wake b).2) (ws : List ParkedWait)
    (out : List Woken) (t : Session) (ht : P t.kernel) :
    P (ws.foldl wakeOne (out, t)).2.kernel := by
  induction ws generalizing out t with
  | nil => exact ht
  | cons w ws ih =>
    rw [List.foldl_cons, wakeOne]
    exact ih _ { t with kernel := (t.kernel.wake w.block).2 } (hw w.block ht)

theorem settle_of {P : Kernel → Prop} (hw : ∀ {k : Kernel} (b : BlockId), P k → P (k.wake b).2)
    (hs : P s.kernel) : P s.settle.2.kernel :=
  foldl_wakeOne_of hw _ [] { s with parked := s.parked.filter fun w => !isDue s.kernel w } hs

theorem live_settle (s : Session) : s.settle.2.kernel.live = s.kernel.live :=
  settle_of (P := (·.live = s.kernel.live)) (fun _ hk => (Kernel.live_wake ..).trans hk) rfl

theorem size_settle (s : Session) : s.settle.2.kernel.blocks.size = s.kernel.blocks.size :=
  settle_of (P := (·.blocks.size = s.kernel.blocks.size))
    (fun _ hk => (Kernel.size_wake ..).trans hk) rfl

theorem down_settle (hd : s.kernel.Down) :
    s.settle.2.kernel.Down ∧ s.settle.2.kernel.fault = s.kernel.fault :=
  settle_of (P := fun k => k.Down ∧ k.fault = s.kernel.fault)
    (fun b hk => ⟨(hk.1.wake b).1, (hk.1.wake b).2.trans hk.2⟩) ⟨hd, rfl⟩

/-- A block that nobody is woken from is left as it was. -/
theorem core_foldl_wakeOne (ws : List ParkedWait) (out : List Woken) (t : Session) {b : BlockId}
    (hb : ∀ w ∈ ws, w.block ≠ b) :
    ((ws.foldl wakeOne (out, t)).2.kernel.block b).core = (t.kernel.block b).core := by
  induction ws generalizing out t with
  | nil => rfl
  | cons w ws ih =>
    rw [List.foldl_cons, wakeOne]
    refine (ih _ { t with kernel := (t.kernel.wake w.block).2 } fun v hv =>
      hb v (List.mem_cons_of_mem _ hv)).trans ?_
    exact Kernel.core_wake_of_ne (hb w List.mem_cons_self).symm

/-- Waking touches no process that runs. -/
theorem core_settle {b : BlockId} (hb : (s.kernel.block b).state = .running) :
    (s.settle.2.kernel.block b).core = (s.kernel.block b).core := by
  refine core_foldl_wakeOne _ _ _ fun w hw => ?_
  rintro rfl
  exact (isDue_iff ..).1 (List.mem_filter.1 hw).2 hb

theorem frames_settle (s : Session) : s.settle.2.frames = s.frames := by
  obtain ⟨k', hk⟩ := settle_eq s
  rw [hk]

theorem parked_settle (s : Session) :
    s.settle.2.parked = s.parked.filter (!isDue s.kernel ·) := by
  obtain ⟨k', hk⟩ := settle_eq s
  rw [hk]

/-- Whatever a session has been through, waking leaves it settled. -/
theorem settled_settle (s : Session) : s.settle.2.Settled := by
  intro w hw
  rw [parked_settle, List.mem_filter, Bool.not_eq_true'] at hw
  have hrunning : (s.kernel.block w.block).state = .running := by
    rw [← Classical.not_not (a := _ = ProcessState.running), ← ne_eq, ← isDue_iff, hw.2]
    exact Bool.false_ne_true
  have hcore := core_settle hrunning
  rw [Block.state_eq_running_iff] at hrunning
  refine Bool.eq_false_iff.2 fun hd => (isDue_iff ..).1 hd ((Block.state_eq_running_iff _).2 ?_)
  rw [Block.reaped_of_core hcore, Block.exited_of_core hcore]
  exact hrunning

/-- A settled session has nobody to wake. -/
theorem settle_of_settled (hs : s.Settled) : s.settle = ([], s) := by
  have hdue : s.parked.filter (isDue s.kernel) = [] :=
    List.filter_eq_nil_iff.2 fun w hw => by rw [hs w hw]; exact Bool.false_ne_true
  have hkept : s.parked.filter (!isDue s.kernel ·) = s.parked :=
    List.filter_eq_self.2 fun w hw => by rw [hs w hw]; rfl
  rw [settle, hdue, hkept]
  rfl

/-- Sleepers on blocks that are reaped get no status. -/
theorem foldl_wakeOne_reaped (ws : List ParkedWait) (out : List Woken) (t : Session)
    (hr : ∀ w ∈ ws, (t.kernel.block w.block).reaped = true) :
    (ws.foldl wakeOne (out, t)).1 = (ws.map t.forsaken).reverse ++ out := by
  induction ws generalizing out t with
  | nil => rfl
  | cons w ws ih =>
    have hw := hr w List.mem_cons_self
    have hq := Kernel.quiet_wake_of_reaped hw
    have hsame : forsaken { t with kernel := (t.kernel.wake w.block).2 } = t.forsaken := by
      funext v
      simp only [forsaken, hq.pid]
    have hwake : wakeOne (out, t) w = (w.finish (t.kernel.wake w.block).1 :: out,
        { t with kernel := (t.kernel.wake w.block).2 }) := rfl
    have hrest := ih (w.finish (t.kernel.wake w.block).1 :: out)
      { t with kernel := (t.kernel.wake w.block).2 } fun v hv =>
        (hq.reaped _).trans (hr v (List.mem_cons_of_mem _ hv))
    have hresult : (t.kernel.wake w.block).1 =
        .error (.noSuchProcess (signedPid (t.kernel.block w.block).pid)) := by
      rw [Kernel.wake_of_reaped hw]
    rw [List.foldl_cons, hwake, hrest, hsame, hresult, List.map_cons, List.reverse_cons,
      List.append_assoc]
    rfl

theorem settle_of_reaped (hr : ∀ w ∈ s.parked, isDue s.kernel w = true →
    (s.kernel.block w.block).reaped = true) :
    s.settle.1 = (s.parked.filter (isDue s.kernel)).map s.forsaken := by
  have hdue : ∀ w ∈ s.parked.filter (isDue s.kernel), (s.kernel.block w.block).reaped = true :=
    fun w hw => hr w (List.mem_of_mem_filter hw) (List.mem_filter.1 hw).2
  have hfold := foldl_wakeOne_reaped (s.parked.filter (isDue s.kernel)) []
    { s with parked := s.parked.filter (!isDue s.kernel ·) } hdue
  rw [settle, hfold, List.append_nil]
  exact List.reverse_reverse _

end Session

end Lifecycle
