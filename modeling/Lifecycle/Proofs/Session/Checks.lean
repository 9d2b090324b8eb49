import Lifecycle.Proofs.Kernel.Covering
import Lifecycle.Proofs.Session.Firm
import Lifecycle.Proofs.Session.Stranding

/-! No check fails in a session whose holders give back what they have and no more, also if the
table is shut down, as long as that is not while the host is asked for a task. Up to the shutdown
the table is sound. After it the counts cover what the session holds, so that a reference that is
cloned is one on a block that is not dead, and the forks that were stopped unwind. -/

namespace Lifecycle

/-- The moves of holders who give back what they have and no more. The table may be shut down,
though not while the host is asked for a task. -/
def Move.proper (s : Session) (h : List Event) : Move → Bool
  | .shutdown => s.frames.all (·.pending.service != .createTask)
  | move => move.permitted s h

namespace Session

/-- Whether each of these moves is proper when its turn comes. -/
def proper (s : Session) (h : List Event) : List Move → Bool
  | [] => true
  | move :: moves => move.proper s h && (s.step move).2.2.proper (h ++ s.events move) moves

/-- What a session whose table is shut down still has: stopped forks, each with a child of its
own that is not reaped, created blocks, and sleepers that only a failed fork wakes. -/
structure Waning (s : Session) (h : List Event) : Prop where
  flight : ∀ f ∈ s.frames, ∃ c q, f.pending.child? = some c ∧ c < s.kernel.blocks.size ∧
    (s.kernel.block c).reaped = false ∧ forkerOf h c = some q
  children : s.inFlight.Nodup
  bare : ∀ {i b}, s.slots.get? i = some (.bare b) →
    b < s.kernel.blocks.size ∧ forkerOf h b = none
  gone : ∀ w ∈ s.parked, isDue s.kernel w = true → (s.kernel.block w.block).reaped = true

/-- A session whose table is shut down without a fault, and covers what the session holds. -/
structure Shut (s : Session) (h : List Event) : Prop where
  kernel : s.kernel.Covered (s.account h)
  waning : s.Waning h

variable {s : Session} {h : List Event}

/-! ### Changes of the table -/

theorem Waning.quiet (r : s.Waning h) {k' : Kernel} (hq : s.kernel.Quiet k') :
    Waning { s with kernel := k' } h where
  flight f hf := by
    obtain ⟨c, q, hc, hlt, hr, hq'⟩ := r.flight f hf
    exact ⟨c, q, hc, hq.size ▸ hlt, (hq.reaped c).trans hr, hq'⟩
  children := r.children
  bare hi := by
    obtain ⟨hlt, hf⟩ := r.bare hi
    exact ⟨hq.size ▸ hlt, hf⟩
  gone w hw hd := by
    rw [isDue, hq.state] at hd
    exact (hq.reaped _).trans (r.gone w hw hd)

theorem Waning.vacate (r : s.Waning h) (i : Nat) : (s.vacate i).Waning h where
  flight := r.flight
  children := r.children
  bare {j b} hj := by
    change (s.slots.erase i).get? j = some _ at hj
    rw [Assoc.get?_erase] at hj
    split at hj
    · cases hj
    · exact r.bare hj
  gone := r.gone

theorem Waning.fill (r : s.Waning h) (i : Nat) {content : Slot}
    (hc : ∀ b, content = .bare b → b < s.kernel.blocks.size ∧ forkerOf h b = none) :
    Waning { s with slots := s.slots.insert i content } h where
  flight := r.flight
  children := r.children
  bare {j b} hj := by
    change (s.slots.insert i content).get? j = some _ at hj
    rw [Assoc.get?_insert] at hj
    split at hj
    · exact hc b (Option.some.inj hj)
    · exact r.bare hj
  gone := r.gone

/-- A longer history that tells nothing of how blocks came about. -/
theorem Waning.append (r : s.Waning h) {es : List Event} (he : ∀ b, forkerOf es b = none) :
    s.Waning (h ++ es) := by
  have hsame : forkerOf (h ++ es) = forkerOf h := funext fun b => by
    rw [forkerOf_append, he, Option.or_none]
  exact ⟨hsame ▸ r.flight, r.children, fun hi => hsame ▸ r.bare hi, r.gone⟩

/-! ### Slots -/

theorem shut_discard {content : Option Slot}
    (hk : s.kernel.Covered ((s.account h).oweSlot content)) (r : s.Waning h) :
    (s.discard content).Shut h := by
  rcases content with _ | b | b
  · exact ⟨hk, r⟩
  · exact ⟨hk.release, r.quiet (Kernel.quiet_release ..)⟩
  · exact ⟨hk, r⟩

/-- Filling a slot drops what it held. -/
theorem shut_store (content : Slot) (i : Nat)
    (hk : s.kernel.Covered ((s.account h).oweSlot (some content))) (r : s.Waning h)
    (hc : ∀ b, content = .bare b → b < s.kernel.blocks.size ∧ forkerOf h b = none) :
    (s.store i content).Shut h := by
  have hcomm : ((s.account h).oweSlot (some content)) =
      (account { s with slots := s.slots.insert i content } h).oweSlot (s.slots.get? i) := by
    rw [account_insert, account_slot s h i]
    rcases s.slots.get? i with _ | b | b <;> cases content <;>
      first | rfl | exact Account.owe_comm ..
  exact shut_discard (s := { s with slots := s.slots.insert i content }) (hcomm ▸ hk) (r.fill i hc)

namespace Shut

/-- A reference that is given back was on the account, or is surrendered now. -/
theorem handled (hs : s.Shut h) {move : Move} {out : Reply × Session} (hh : s.Handles move out)
    (hp : move.proper s h = true) : out.2.Shut (h ++ s.actEvents move out.1 out.2.kernel) := by
  have hsilent : s.actEvents move out.1 out.2.kernel = [] → out.2.Shut h →
      out.2.Shut (h ++ s.actEvents move out.1 out.2.kernel) := fun he ho => by
    rwa [he, List.append_nil]
  have hk := hs.kernel
  cases hh with
  | @shared slot target b held =>
    have howed : (s.account h).owed b ≠ 0 := by
      rw [account_slot s h slot, held, Account.owed_oweSlot, Slot.weight, if_pos rfl]
      exact Nat.succ_ne_zero _
    exact hsilent rfl (shut_store (s := { s with kernel := s.kernel.retain b }) (.ref b) target
      (hk.retain howed) (hs.waning.quiet (Kernel.quiet_retain ..)) fun c hc => by cases hc)
  | @copied slot target b held =>
    exact hsilent rfl (shut_store (.bare b) target hk hs.waning
      fun c hc => Slot.bare.inj hc ▸ hs.waning.bare held)
  | @released slot content held =>
    have hq := Kernel.quiet_release s.kernel content.block
    rw [account_slot s h slot, held] at hk
    cases content with
    | ref b =>
      exact hsilent (by simp only [actEvents, held]) ⟨hk.release, (hs.waning.vacate slot).quiet hq⟩
    | bare b =>
      obtain ⟨hlt, hf⟩ := hs.waning.bare held
      have hg : h.contains (.surrendered b) = false := by
        simpa only [Move.proper, Move.permitted, held, Bool.not_eq_true'] using hp
      have hgiven := (Kernel.Covered.give hk hlt hf hg).release
      simp only [actEvents, held]
      exact ⟨(account_surrendered (s.vacate slot) h b).symm ▸ hgiven,
        ((hs.waning.vacate slot).quiet hq).append fun _ => rfl⟩
  | @dropped slot content held =>
    rw [account_slot s h slot, held] at hk
    exact hsilent rfl (shut_discard (s := s.vacate slot) hk (hs.waning.vacate slot))
  | overReleased => cases hp

/-! ### Forks -/

end Shut

/-- A fork that has ended, with its child reaped. -/
theorem Waning.unwind (r : s.Waning h) {f : Frame} {fs : List Frame} (hframes : s.frames = f :: fs)
    {c : BlockId} (hc : f.pending.child? = some c) {k' : Kernel}
    (hq : (s.kernel.update c Block.unwound).Quiet k') :
    Waning { s with kernel := k', frames := fs } h := by
  have hmem : ∀ g ∈ fs, g ∈ s.frames := fun g hg => hframes ▸ List.mem_cons_of_mem _ hg
  have hchildren : c ∉ fs.filterMap (·.pending.child?) ∧ (fs.filterMap (·.pending.child?)).Nodup := by
    have hin : s.inFlight = c :: fs.filterMap (·.pending.child?) := by
      rw [inFlight, hframes]
      exact List.filterMap_cons_some hc
    exact List.nodup_cons.1 (hin ▸ r.children)
  have hsize : k'.blocks.size = s.kernel.blocks.size := hq.size.trans (Kernel.size_update ..)
  have hother : ∀ d, d ≠ c → (k'.block d).core = (s.kernel.block d).core := fun d hd =>
    (hq.core d).trans (by rw [Kernel.block_update_of_ne hd])
  refine ⟨fun g hg => ?_, hchildren.2, fun hi => ?_, fun w hw hd => ?_⟩
  · obtain ⟨d, q, hd, hlt, hr, hq⟩ := r.flight g (hmem g hg)
    have hdc : d ≠ c := by
      rintro rfl
      exact hchildren.1 (List.mem_filterMap.2 ⟨g, hg, hd⟩)
    exact ⟨d, q, hd, hsize.symm ▸ hlt, (Block.reaped_of_core (hother d hdc)).trans hr, hq⟩
  · obtain ⟨hlt, hf⟩ := r.bare hi
    exact ⟨hsize.symm ▸ hlt, hf⟩
  · by_cases hwc : w.block = c
    · obtain ⟨d, q, hd, hlt, -, -⟩ := r.flight f (hframes ▸ List.mem_cons_self)
      obtain rfl : c = d := Option.some.inj (hc.symm.trans hd)
      rw [hwc]
      change (k'.block c).reaped = true
      rw [hq.reaped, Kernel.block_update_self hlt]
      rfl
    · have hcore := hother w.block hwc
      refine (Block.reaped_of_core hcore).trans (r.gone w hw ?_)
      rw [isDue_iff] at hd ⊢
      rwa [Block.state, ← Block.reaped_of_core hcore, ← Block.exited_of_core hcore]

namespace Shut

/-- A fork that goes on fails, and its child is reaped. -/
theorem resume (hs : s.Shut h) {f : Frame} {fs : List Frame} (hframes : s.frames = f :: fs)
    (refusal : Option Errno) :
    let out := proceed { s with kernel := (s.kernel.resume f.pending refusal).2, frames := fs }
      f.purpose (s.kernel.resume f.pending refusal).1
    out.2.Shut h ∧ s.actEvents (.resume refusal) out.1 out.2.kernel = [] := by
  obtain ⟨c, q, hc, hlt, hr, hq⟩ := hs.waning.flight f (hframes ▸ List.mem_cons_self)
  obtain ⟨parent, error, k₁, hparent, ht, hspent, hresume⟩ :=
    hs.kernel.spent.resume_eq hc refusal
  have hblock := Kernel.block_eq_of_table ht
  -- the parent's reference is on the account of the fork that ends
  have howed : (s.account h).owed = ((account { s with frames := fs } h).owe parent).owed := by
    funext b
    have hsame : s.account h = account { s with frames := f :: fs } h := by rw [← hframes]
    rw [hsame, owed_frames_cons, hparent, Account.owed_owe]
    exact congrArg _ (if_congr (by rw [Option.some.injEq]) rfl rfl)
  have hk : k₁.Covered ((account { s with frames := fs } h).owe parent) :=
    (hs.kernel.of_table ht hspent).of_account rfl rfl howed
  have hcovered := hk.unwind (Kernel.size_eq_of_table ht ▸ hlt) hq
    ((congrArg Block.reaped (hblock c)).trans hr)
  have hunwound : ∀ x : Block, (Block.unwound x).core = Block.unwound x.core := fun _ => rfl
  have hquiet : (s.kernel.update c Block.unwound).Quiet ((k₁.abandon c).release parent).2 :=
    ((Kernel.Quiet.of_table ht).update c hunwound).trans
      ((Kernel.quiet_abandon k₁ c).trans (Kernel.quiet_release (k₁.abandon c) parent))
  have hfailed : s.kernel.resume f.pending refusal =
      (.failed error, ((k₁.abandon c).release parent).2) := hresume
  have hwaning := hs.waning.unwind hframes hc hquiet
  rw [hfailed]
  generalize ((k₁.abandon c).release parent).2 = k' at *
  cases f.purpose <;> exact ⟨⟨hcovered, hwaning⟩, rfl⟩

/-! ### Moves -/

/-- The calls that need the table are refused. -/
theorem act (hs : s.Shut h) {move : Move} (hp : move.proper s h = true) :
    (s.act move).2.Shut (h ++ s.actEvents move (s.act move).1 (s.act move).2.kernel) := by
  have hd := performsDown hs.kernel.spent.down.live move
  generalize s.act move = out at hd ⊢
  cases hd with
  | refused silent =>
    rw [silent, List.append_nil]
    exact hs
  | exit =>
    exact (List.append_nil h).symm ▸
      ⟨hs.kernel, ⟨hs.waning.flight, hs.waning.children, hs.waning.bare, hs.waning.gone⟩⟩
  | resume stopped =>
    obtain ⟨hshut, silent⟩ := hs.resume stopped _
    rw [silent, List.append_nil]
    exact hshut
  | slot handles => exact hs.handled handles hp

/-! ### Waking -/

/-- Sleepers on blocks that are reaped give their references back. -/
theorem covered_foldl_wakeOne (ws : List ParkedWait) (out : List Woken) {t : Session} {a : Account}
    (hk : t.kernel.Covered (a.oweAll (ws.map (·.block))))
    (hr : ∀ w ∈ ws, (t.kernel.block w.block).reaped = true) :
    (ws.foldl wakeOne (out, t)).2.kernel.Covered a ∧
      t.kernel.Quiet (ws.foldl wakeOne (out, t)).2.kernel := by
  induction ws generalizing out t with
  | nil => exact ⟨hk, .refl _⟩
  | cons w ws ih =>
    rw [List.map_cons, Account.oweAll, List.foldl_cons, ← Account.oweAll,
      Account.oweAll_owe] at hk
    have hw := hr w List.mem_cons_self
    have hq := Kernel.quiet_wake_of_reaped hw
    rw [List.foldl_cons, wakeOne]
    obtain ⟨hcovered, hquiet⟩ := ih _ (t := { t with kernel := (t.kernel.wake w.block).2 })
      (hk.wake hw) fun v hv => (hq.reaped _).trans (hr v (List.mem_cons_of_mem _ hv))
    exact ⟨hcovered, hq.trans hquiet⟩

/-- Those who are woken hear that their target is gone. -/
theorem settle (hs : s.Shut h) : s.settle.2.Shut h ∧ s.settle.1.flatMap s.wakeEvents = [] := by
  have hdue : ∀ w ∈ s.parked.filter (isDue s.kernel), (s.kernel.block w.block).reaped = true :=
    fun w hw => hs.waning.gone w (List.mem_of_mem_filter hw) (List.mem_filter.1 hw).2
  have hk := hs.kernel
  rw [account_due s h (isDue s.kernel)] at hk
  obtain ⟨hcovered, hquiet⟩ := covered_foldl_wakeOne _ []
    (t := { s with parked := s.parked.filter (!isDue s.kernel ·) }) hk hdue
  refine ⟨?_, ?_⟩
  · change s.settle.2.kernel.Covered _ at hcovered
    change s.kernel.Quiet s.settle.2.kernel at hquiet
    obtain ⟨k', hk'⟩ := settle_eq s
    rw [hk'] at hcovered hquiet ⊢
    have hkept : Waning { s with parked := s.parked.filter (!isDue s.kernel ·) } h :=
      ⟨hs.waning.flight, hs.waning.children, hs.waning.bare,
        fun w hw => hs.waning.gone w (List.mem_of_mem_filter hw)⟩
    exact ⟨hcovered, hkept.quiet hquiet⟩
  · rw [settle_of_reaped hs.waning.gone, List.flatMap_map]
    exact List.flatMap_eq_nil_iff.2 fun w _ => rfl

theorem step (hs : s.Shut h) {move : Move} (hp : move.proper s h = true) :
    (s.step move).2.2.Shut (h ++ s.events move) := by
  obtain ⟨hshut, hn⟩ := (hs.act hp).settle
  rw [events, hn, List.append_nil]
  exact hshut

end Shut

/-! ### Runs -/

/-- A shutdown, if no fork or creation that is stopped asks for a task. -/
theorem Sound.shut (hs : s.Sound h) (hd : s.Settled) (hf : s.Firm)
    (hp : Move.proper s h .shutdown = true) :
    (s.step .shutdown).2.2.Shut (h ++ s.events .shutdown) := by
  obtain ⟨-, hq, -, -⟩ := Kernel.shutdown_spec hs.kernel.placed.live hs.kernel.placed.valid
  have hspent : s.kernel.shutdown.2.Spent := by
    rcases hf.kernel hs.fault with hi | hspent
    · exact hi.shutdown
    · cases hspent.down.live.symm.trans hs.kernel.placed.live
  have hstep := step_shutdown hd hq
  have hsilent : s.events .shutdown = [] := by
    have hwoken : (s.act .shutdown).2.settle.1 = [] := congrArg (·.2.1) hstep
    rw [events, hwoken]
    rfl
  rw [hstep, hsilent, List.append_nil]
  have hnone : ∀ f ∈ s.frames, f.pending.service ≠ .createTask := fun f hf => by
    simpa using List.all_eq_true.1 hp f hf
  have hwaning : s.Waning h := by
    refine ⟨fun f hf => ?_, hs.ready.children, fun hi => ?_, fun w hw hdue => ?_⟩
    · obtain ⟨c, hc⟩ : ∃ c, f.pending.child? = some c := by
        have hservice := hnone f hf
        cases hpending : f.pending <;>
          first | exact ⟨_, rfl⟩ | exact absurd (by rw [hpending]; rfl) hservice
      obtain ⟨q, hq⟩ := (hs.ready.fits f hf).forker hc
      have hin : c ∈ s.inFlight := mem_inFlight.2 ⟨f, hf, hc⟩
      exact ⟨c, q, hc, hs.forker_lt hq,
        hs.kernel.reaped_of_not_exiting (hs.inFlight_running hin).2, hq⟩
    · obtain ⟨hlt, -, hf⟩ := hs.ready.bare hi
      exact ⟨hlt, hf⟩
    · cases (hd w hw).symm.trans hdue
  exact ⟨hs.kernel.covered hspent, hwaning.quiet hq⟩

/-- A session before or after its shutdown. -/
def Kept (s : Session) (h : List Event) : Prop := s.Sound h ∧ s.Settled ∧ s.Firm ∨ s.Shut h

theorem Kept.fault (hs : s.Kept h) : s.kernel.fault = none :=
  hs.elim (·.1.fault) (·.kernel.fault)

theorem Kept.step (hs : s.Kept h) {move : Move} (hp : move.proper s h = true) :
    (s.step move).2.2.Kept (h ++ s.events move) := by
  rcases hs with ⟨hsound, hd, hf⟩ | hshut
  · have hlive : ∀ {m}, m = move → m.permitted s h = true →
        (s.step m).2.2.Kept (h ++ s.events m) := fun {m} _ hm =>
      Or.inl ⟨hsound.next hm, settled_step s m, hf.step hsound.fault m⟩
    cases move with
    | shutdown => exact Or.inr (hsound.shut hd hf hp)
    | _ => exact hlive rfl hp
  · exact Or.inr (hshut.step hp)

theorem Kept.run (hs : s.Kept h) {moves : List Move} (hl : s.proper h moves = true) :
    (s.run moves).Kept (s.history h moves) := by
  induction moves generalizing s h with
  | nil => exact hs
  | cons move moves ih =>
    obtain ⟨hp, hrest⟩ := Bool.and_eq_true_iff.1 hl
    rw [run_cons, hs.fault]
    exact ih (hs.step hp) hrest

end Session

end Lifecycle
