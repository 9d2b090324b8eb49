import Lifecycle.Proofs.Session.Authority
import Lifecycle.Proofs.Session.Turning

/-! No wake-up is lost. Between moves a block has a sleeper exactly if it runs and a
wait on it is committed, and then it has one; and a move finishes the sleepers on the
process that exits in it, and on the child whose fork fails in it, and no others. -/

namespace Lifecycle

/-- What a sleeper reports of a result. -/
def ParkedWait.finish (w : ParkedWait) (result : Except ProcessError (Pid × RawStatus)) : Woken :=
  ⟨w.id, ⟨w.via, result, Session.copyOut w.destination result⟩⟩

namespace Session

/-- The wait that a move puts to sleep. -/
def parks (s : Session) : Move → List ParkedWait
  | .wait caller target options via destination =>
    match (s.wait caller target options via destination).1 with
    | .blocked id => ((s.target? target).map
        (⟨id, ·, caller, via, s.contexts.get? caller, destination⟩)).toList
    | _ => []
  | _ => []

/-- Each block has a sleeper exactly if it runs and a wait on it is committed. -/
def Watched (s : Session) : Prop := ∀ b, s.sleepers b =
  if (s.kernel.block b).state = .running ∧ (s.kernel.block b).waiter = true then 1 else 0

/-- What becomes of the sleepers in a step. -/
structure Rouses (s : Session) (move : Move) : Prop where
  asleep : (s.step move).2.2.parked =
    s.parked.filter (fun w => (s.answer? move w.block).isNone) ++ s.parks move
  woken : (s.step move).2.1 = s.parked.filterMap fun w => (s.answer? move w.block).map w.finish
  /-- An exit that somebody waits for publishes its status, which notifies the sleeper. -/
  notified : ∀ {w status}, w ∈ s.parked → s.departs move = some (w.block, status) →
    (s.step move).1 = .exited (s.kernel.block w.block).pid (some .zombie)

end Session

/-! ### Finishing sleepers -/

namespace Kernel

variable {k k' : Kernel} {b c : BlockId}

theorem wake_of_reaped (hr : (k.block b).reaped = true) :
    (k.wake b).1 = .error (.noSuchProcess (signedPid (k.block b).pid)) := by
  rw [wake, if_pos hr]

theorem wake_of_unreaped (hr : (k.block b).reaped = false) :
    (k.wake b).1 = .ok ((k.block b).pid, (k.block b).code) := by
  rw [wake, hr]
  rfl

/-- The answer is that of the block, whatever its count. -/
theorem wake_of_core (hb : (k'.block b).core = (k.block b).core) :
    (k'.wake b).1 = (k.wake b).1 := by
  cases hr : (k.block b).reaped with
  | true =>
    rw [wake_of_reaped hr, wake_of_reaped ((Block.reaped_of_core hb).trans hr),
      Block.pid_of_core hb]
  | false =>
    rw [wake_of_unreaped hr, wake_of_unreaped ((Block.reaped_of_core hb).trans hr),
      Block.pid_of_core hb, Block.code_of_core hb]

theorem quiet_collect (k : Kernel) (c : BlockId) :
    (k.update c Block.collected).Quiet (k.collect c).2 := by
  unfold collect
  dsimp only
  exact (quiet_release (k.update c Block.collected) c).trans (quiet_release _ c)

/-- Finishing a wait changes its target alone. -/
theorem core_wake_of_ne (hbc : b ≠ c) : ((k.wake c).2.block b).core = (k.block b).core := by
  unfold wake
  split
  · exact (quiet_release k c).core b
  · rw [(quiet_collect k c).core, block_update_of_ne hbc]

end Kernel

namespace Session

variable {s : Session} {h : List Event}

/-- Sleepers on different blocks are finished independently. -/
theorem foldl_wakeOne_fst (ws : List ParkedWait) (hn : (ws.map (·.block)).Nodup)
    (out : List Woken) (t : Session) : (ws.foldl wakeOne (out, t)).1 =
      (ws.map fun w => w.finish (t.kernel.wake w.block).1).reverse ++ out := by
  induction ws generalizing out t with
  | nil => rfl
  | cons w ws ih =>
    obtain ⟨hw, hrest⟩ := List.nodup_cons.1 hn
    have hsame : ∀ v ∈ ws, v.finish ((t.kernel.wake w.block).2.wake v.block).1 =
        v.finish (t.kernel.wake v.block).1 := fun v hv => by
      have hne : v.block ≠ w.block := fun he => hw (List.mem_map.2 ⟨v, hv, he⟩)
      rw [Kernel.wake_of_core (Kernel.core_wake_of_ne hne)]
    rw [List.foldl_cons, wakeOne, ih hrest, List.map_cons, List.reverse_cons, List.append_assoc]
    dsimp only
    rw [List.map_congr_left hsame]
    rfl

/-- At most one sleeper on each block, and so the blocks differ. -/
theorem nodup_blocks (hn : ∀ b, s.sleepers b ≤ 1) : (s.parked.map (·.block)).Nodup := by
  rw [List.nodup_iff_count_le_one]
  intro b
  rw [List.count_eq_countP, List.countP_map]
  exact hn b

/-- Settling finishes those that are due, in the order in which they fell asleep. -/
theorem settle_fst (hn : ∀ b, s.sleepers b ≤ 1) : s.settle.1 =
    (s.parked.filter (isDue s.kernel)).map fun w => w.finish (s.kernel.wake w.block).1 := by
  have hsub : ((s.parked.filter (isDue s.kernel)).map (·.block)).Nodup :=
    (nodup_blocks hn).sublist (List.filter_sublist.map _)
  rw [settle, foldl_wakeOne_fst _ hsub, List.append_nil, List.reverse_reverse]

/-! ### Falling asleep -/

/-- Nothing but a wait puts anybody to sleep. -/
theorem parked_act (s : Session) {move : Move}
    (hm : ∀ caller target options via destination,
      move ≠ .wait caller target options via destination) :
    (s.act move).2.parked = s.parked := by
  have hp := s.performs move
  generalize s.act move = out at hp ⊢
  cases hp with
  | fork => exact parked_proceed ..
  | create => exact parked_proceed ..
  | resume => exact parked_proceed ..
  | slept => exact absurd rfl (hm _ _ _ _ _)
  | got => exact parked_store ..
  | slot handles => exact handles.parked
  | _ => rfl

/-- A move puts nobody to sleep, or one wait, on a block that runs and had no waiter. -/
inductive Parks (s : Session) (move : Move) : List ParkedWait → Kernel → Prop
  | nobody {k'} (waiter : ∀ b, (k'.block b).state = .running →
      (k'.block b).waiter = (s.kernel.block b).waiter) : Parks s move [] k'
  | one {w target options pid k'}
      (asked : move = .wait w.caller target options w.via w.destination)
      (blocked : (s.act move).1 = .blocked w.id)
      (named : s.kernel.targetPid? target = some pid)
      (found : s.kernel.pids.lookup pid = some w.block)
      (running : (s.kernel.block w.block).state = .running)
      (waiter : (s.kernel.block w.block).waiter = false)
      (quiet : (s.kernel.update w.block Block.committed).Quiet k') : Parks s move [w] k'

theorem Sound.parks_wait (hs : s.Sound h) (caller : Pid) (target : Int64) (options : Int32)
    (via : Via) (destination : Option RawStatus) :
    let move : Move := .wait caller target options via destination
    (s.act move).2.parked = s.parked ++ s.parks move ∧
      Parks s move (s.parks move) (s.act move).2.kernel := by
  have hw := hs.kernel.wait caller target options
  have hsame : ∀ {k' : Kernel}, s.kernel.Quiet k' →
      Parks s (.wait caller target options via destination) [] k' := fun hq =>
    .nobody fun b _ => hq.waiter b
  simp only [Session.act, Session.parks, Session.wait]
  split
  · exact ⟨(List.append_nil _).symm, hsame (.refl _)⟩
  · next hcan =>
    generalize hk : s.kernel.wait caller target options = out at hw
    obtain ⟨outcome, k'⟩ := out
    dsimp only at hw ⊢
    cases hw with
    | refused quiet _ => exact ⟨(List.append_nil _).symm, hsame quiet⟩
    | collected named found parent waiter reaped exited quiet _ =>
      refine ⟨(List.append_nil _).symm, .nobody fun b hb => ?_⟩
      rw [quiet.state, Kernel.block_update] at hb
      rw [quiet.waiter, Kernel.block_update]
      split at hb
      · simp [Block.state_eq_running_iff, Block.collected] at hb
      · next hc => rw [if_neg hc]
    | @slept pid b _ named found parent waiter reaped exited quiet _ =>
      simp only [target?_eq named found, Option.map_some, Option.toList_some]
      refine ⟨trivial, .one rfl ?_ named found
        ((Block.state_eq_running_iff _).2 ⟨reaped, exited⟩) waiter quiet⟩
      change (s.wait caller target options via destination).1 = _
      rw [Session.wait, if_neg hcan, hk]

/-- A wait is all that sets a waiter. -/
theorem Sound.waiter_eq (hs : s.Sound h) {move : Move} (hp : move.permitted s h = true)
    (hm : ∀ caller target options via destination,
      move ≠ .wait caller target options via destination) (b : BlockId) :
    ((s.act move).2.kernel.block b).waiter = (s.kernel.block b).waiter := by
  have heffect := (hs.act hp).effect
  rw [Bool.eq_iff_iff, hs.waiter_act heffect, or_iff_left]
  rintro ⟨caller, hc⟩
  obtain ⟨target, options, via, destination, he, -⟩ := (hs.commits heffect hc).move
  exact hm caller target options via destination he

theorem Sound.parks (hs : s.Sound h) {move : Move} (hp : move.permitted s h = true) :
    (s.act move).2.parked = s.parked ++ s.parks move ∧
      Parks s move (s.parks move) (s.act move).2.kernel := by
  cases move with
  | wait caller target options via destination =>
    exact hs.parks_wait caller target options via destination
  | _ =>
    refine ⟨(parked_act s ?_).trans (List.append_nil _).symm, .nobody fun b _ =>
      hs.waiter_eq hp ?_ b⟩
    all_goals simp

/-! ### Steps -/

theorem sleepers_filter_of_stopped {b : BlockId} (hb : (s.kernel.block b).state ≠ .running) :
    sleepers { s with parked := s.parked.filter (!isDue s.kernel ·) } b = 0 := by
  refine List.countP_eq_zero.2 fun w hw hwb => ?_
  obtain rfl := beq_iff_eq.1 hwb
  have hdue := (isDue_iff s.kernel w).2 hb
  simp [hdue] at hw

/-- Those that run after a move have their sleepers. -/
theorem Sound.sleepers_act (hs : s.Sound h) (hw : s.Watched) {move : Move}
    (hp : move.permitted s h = true) {b : BlockId}
    (hb : ((s.act move).2.kernel.block b).state = .running) :
    (s.act move).2.sleepers b =
      if ((s.act move).2.kernel.block b).waiter = true then 1 else 0 := by
  have hrunning := (hs.turn hp b).of_running hb
  obtain ⟨hparked, hparks⟩ := hs.parks hp
  have hbefore : s.sleepers b = if (s.kernel.block b).waiter = true then 1 else 0 := by
    rw [hw b]
    simp only [hrunning, true_and]
  have hafter : (s.act move).2.sleepers b =
      s.sleepers b + (s.parks move).countP (·.block == b) := by
    rw [sleepers, hparked, List.countP_append]
    rfl
  rw [hafter, hbefore]
  generalize s.parks move = ws at hparks
  cases hparks with
  | nobody waiter => rw [waiter b hb, List.countP_nil, Nat.add_zero]
  | @one w _ _ _ _ asked blocked named found running waiter quiet =>
    rw [List.countP_singleton, quiet.waiter, Kernel.block_update]
    by_cases hbw : b = w.block
    · subst hbw
      simp [waiter, (hs.kernel.placed.own found).1, Block.committed]
    · simp [hbw, Ne.symm hbw]

theorem Sound.watched_step (hs : s.Sound h) (hw : s.Watched) {move : Move}
    (hp : move.permitted s h = true) : (s.step move).2.2.Watched := by
  have hburies : (s.act move).2.kernel.Buries (s.step move).2.2.kernel :=
    (hs.act hp).sound.settle.1.buries
  intro b
  have hsleepers : (s.step move).2.2.sleepers b =
      sleepers { (s.act move).2 with
        parked := (s.act move).2.parked.filter (!isDue (s.act move).2.kernel ·) } b := by
    obtain ⟨k', hk⟩ := settle_eq (s.act move).2
    change (s.act move).2.settle.2.sleepers b = _
    rw [hk]
    rfl
  simp only [hsleepers, hburies.running, hburies.waiter]
  by_cases hb : ((s.act move).2.kernel.block b).state = .running
  · rw [sleepers_filter hb, hs.sleepers_act hw hp hb]
    simp only [hb, true_and]
  · rw [sleepers_filter_of_stopped hb, if_neg fun hc => hb hc.1]

theorem Watched.sleepers_le (hw : s.Watched) (b : BlockId) : s.sleepers b ≤ 1 := by
  rw [hw b]
  split <;> omega

/-- A sleeper that runs no more has its answer. -/
theorem Sound.wake_eq (hs : s.Sound h) {move : Move} (hp : move.permitted s h = true) {b : BlockId}
    (hw : (s.kernel.block b).waiter = true) {result : Except ProcessError (Pid × RawStatus)}
    (ha : s.answer? move b = some result) : ((s.act move).2.kernel.wake b).1 = result := by
  have ht := hs.turn hp b
  rw [ha] at ht
  cases ht with
  | gone pid reaped => rw [Kernel.wake_of_reaped reaped, pid]
  | left pid code exited reaped => rw [Kernel.wake_of_unreaped (reaped hw), pid, code]

/-- The sleepers that a move makes due are those it answers. -/
theorem Sound.isDue_act (hs : s.Sound h) (hd : s.Settled) {move : Move}
    (hp : move.permitted s h = true) {w : ParkedWait} (hw : w ∈ s.parked) :
    isDue (s.act move).2.kernel w = (s.answer? move w.block).isSome := by
  have hrunning : (s.kernel.block w.block).state = .running :=
    Classical.not_not.1 fun hn => Bool.false_ne_true ((hd w hw).symm.trans ((isDue_iff ..).2 hn))
  rw [Bool.eq_iff_iff, isDue_iff, Ne, (hs.turn hp w.block).running_iff hrunning,
    Option.isSome_iff_ne_none]

/-- A wait that falls asleep is not due. -/
theorem Sound.isDue_parks (hs : s.Sound h) {move : Move} (hp : move.permitted s h = true)
    {w : ParkedWait} (hw : w ∈ s.parks move) : isDue (s.act move).2.kernel w = false := by
  have hparks := (hs.parks hp).2
  generalize s.parks move = ws at hparks hw
  cases hparks with
  | nobody waiter => cases hw
  | one asked blocked named found running waiter quiet =>
    obtain rfl := List.mem_singleton.1 hw
    refine Bool.eq_false_iff.2 fun hd => (isDue_iff ..).1 hd ?_
    rw [quiet.state, Kernel.block_update]
    split <;> exact running

theorem Sound.sleepers_act_le (hs : s.Sound h) (hw : s.Watched) {move : Move}
    (hp : move.permitted s h = true) (b : BlockId) : (s.act move).2.sleepers b ≤ 1 := by
  by_cases hb : ((s.act move).2.kernel.block b).state = .running
  · rw [hs.sleepers_act hw hp hb]
    split <;> omega
  · have hnone : (s.parks move).countP (·.block == b) = 0 := by
      refine List.countP_eq_zero.2 fun w hm hwb => ?_
      obtain rfl := beq_iff_eq.1 hwb
      exact Bool.false_ne_true ((hs.isDue_parks hp hm).symm.trans ((isDue_iff ..).2 hb))
    rw [sleepers, (hs.parks hp).1, List.countP_append, hnone]
    exact hw.sleepers_le b

/-- What is committed to has a waiter. -/
theorem Watched.waiter (hw : s.Watched) {w : ParkedWait} (hm : w ∈ s.parked) :
    (s.kernel.block w.block).waiter = true := by
  have hone : s.sleepers w.block ≠ 0 :=
    Nat.pos_iff_ne_zero.1 (List.countP_pos_iff.2 ⟨w, hm, beq_self_eq_true _⟩)
  rw [hw] at hone
  exact (ite_ne_right_iff.1 hone).1.2

theorem Sound.notified (hs : s.Sound h) (hw : s.Watched) {move : Move} {w : ParkedWait}
    {status : ExitStatus} (hm : w ∈ s.parked) (hd : s.departs move = some (w.block, status)) :
    (s.step move).1 = .exited (s.kernel.block w.block).pid (some .zombie) := by
  cases move with
  | exit pid st =>
    rcases hs.exit_cases pid st with ⟨-, hn⟩ | ⟨b, q, hb, hl, -, -, hreply, -⟩
    · cases hn.symm.trans hd
    · obtain ⟨rfl, rfl⟩ := Prod.mk.inj (Option.some.inj (hb.symm.trans hd))
      have hpath : s.kernel.exitPath w.block = .zombie :=
        if_neg fun hc => Bool.false_ne_true (hc.2.symm.trans (hw.waiter hm))
      rw [(hs.kernel.placed.own hl).2, ← hpath]
      exact hreply
  | _ => cases hd

theorem Sound.rouses (hs : s.Sound h) (hd : s.Settled) (hw : s.Watched) {move : Move}
    (hp : move.permitted s h = true) : s.Rouses move where
  asleep := by
    have hsettle : (s.step move).2.2.parked =
        (s.act move).2.parked.filter (!isDue (s.act move).2.kernel ·) := by
      obtain ⟨k', hk⟩ := settle_eq (s.act move).2
      change (s.act move).2.settle.2.parked = _
      rw [hk]
    rw [hsettle, (hs.parks hp).1, List.filter_append]
    congr 1
    · refine List.filter_congr fun w hm => ?_
      rw [hs.isDue_act hd hp hm, Option.not_isSome]
    · refine List.filter_eq_self.2 fun w hm => ?_
      rw [hs.isDue_parks hp hm]
      rfl
  woken := by
    have hnone : (s.parks move).filter (isDue (s.act move).2.kernel) = [] :=
      List.filter_eq_nil_iff.2 fun w hm => by rw [hs.isDue_parks hp hm]; exact Bool.false_ne_true
    change (s.act move).2.settle.1 = _
    rw [settle_fst (hs.sleepers_act_le hw hp), (hs.parks hp).1, List.filter_append, hnone,
      List.append_nil, ← List.filterMap_eq_map, List.filterMap_filter]
    refine List.filterMap_congr fun w hm => ?_
    rw [hs.isDue_act hd hp hm]
    cases ha : s.answer? move w.block with
    | none => rfl
    | some result =>
      rw [Option.isSome_some, if_pos rfl, Function.comp, hs.wake_eq hp (hw.waiter hm) ha]
      rfl
  notified hm hdeparts := hs.notified hw hm hdeparts

/-! ### Runs -/

/-- A target is the signed form of the pid it names. -/
theorem signedPid_of_targetPid? {k : Kernel} {target : Int64} {pid : Pid}
    (hc : k.pids.capacity ≤ maxPidSpace.toNat) (ht : k.targetPid? target = some pid) :
    signedPid pid = target := by
  have hbound : maxPidSpace.toNat = 1048576 := rfl
  unfold Kernel.targetPid? at ht
  split at ht
  · next hr =>
    obtain rfl := Option.some.inj ht
    have hlt : target.toInt.toNat < UInt32.size := by
      simp only [UInt32.size]
      omega
    rw [signedPid, UInt32.toNat_ofNat_of_lt' hlt, ← Int64.ofInt_eq_ofNat,
      Int.toNat_of_nonneg (Int.le_of_lt hr.1), Int64.ofInt_toInt]
  · cases ht

theorem toInt_signedPid (pid : Pid) : (signedPid pid).toInt = pid.toNat :=
  Int64.toInt_ofNat_of_lt (Nat.lt_of_lt_of_le pid.toNat_lt (by decide))

/-- Whoever is installed at another pid than the kernel's can be named. -/
theorem targetPid?_signedPid {k : Kernel} {pid : Pid} {b : BlockId} (hv : k.pids.Valid)
    (hb : k.pids.lookup pid = some b) (hp : pid ≠ kernelPid) :
    k.targetPid? (signedPid pid) = some pid := by
  have hlt := hv.lookup_lt hb
  have hpos : pid.toNat ≠ 0 := fun h => hp (UInt32.toNat_inj.1 h)
  unfold Kernel.targetPid?
  rw [toInt_signedPid, if_pos (by omega), Int.toNat_natCast]
  exact congrArg some UInt32.ofNat_toNat

/-- The signed form of a pid names no other. -/
theorem pid_of_targetPid?_signedPid {k : Kernel} {pid named : Pid}
    (ht : k.targetPid? (signedPid pid) = some named) : named = pid := by
  unfold Kernel.targetPid? at ht
  split at ht
  · rw [toInt_signedPid, Int.toNat_natCast, UInt32.ofNat_toNat] at ht
    exact (Option.some.inj ht).symm
  · cases ht

end Session

end Lifecycle
