import Lifecycle.Proofs.Kernel.Exiting
import Lifecycle.Proofs.Kernel.Forking
import Lifecycle.Proofs.Session.History

/-! The account of a session: what its history and its slots, sleeping waits and
stopped forks put on the table's account, and how that changes with each of them. -/

namespace Lifecycle

/-! ### The forker of a block -/

theorem forkerOf_append (h es : List Event) (b : BlockId) :
    forkerOf (h ++ es) b = (forkerOf h b).or (forkerOf es b) :=
  List.findSome?_append

theorem forkerOf_append_of_some {h : List Event} {b q : BlockId} (hb : forkerOf h b = some q)
    (es : List Event) : forkerOf (h ++ es) b = some q := by
  rw [forkerOf_append, hb]
  rfl

theorem forkerOf_born (child forker b : BlockId) :
    forkerOf [.born child forker] b = if child = b then some forker else none := by
  unfold forkerOf
  rw [List.findSome?_cons]
  split <;> next he => simp_all

/-- Whether an event says nothing of how a block came about. -/
def Event.plain : Event → Bool
  | .born _ _ => false
  | .surrendered _ => false
  | _ => true

/-- What an exit tells is plain. -/
theorem plain_of_left {cs : List BlockId} {b : BlockId} {status : ExitStatus} {path : ExitPath} :
    ∀ e ∈ cs.map Event.inherited ++ [.exited b status path], e.plain = true := by
  simp only [List.mem_append, List.mem_map, List.mem_singleton]
  rintro e (⟨c, -, rfl⟩ | rfl) <;> rfl

theorem forkerOf_of_plain {es : List Event} (he : ∀ e ∈ es, e.plain = true) (b : BlockId) :
    forkerOf es b = none := by
  refine List.findSome?_eq_none_iff.2 fun e hm => ?_
  have := he e hm
  cases e <;> first | rfl | cases this

theorem forkerOf_append_plain (h : List Event) {es : List Event}
    (he : ∀ e ∈ es, e.plain = true) : forkerOf (h ++ es) = forkerOf h := by
  funext b
  rw [forkerOf_append, forkerOf_of_plain he, Option.or_none]

namespace Session

variable (s : Session) (h : List Event)

/-- The account of the table in this session. -/
def account : Account where
  forker := forkerOf h
  given b := h.contains (.surrendered b)
  owed b := s.refs b + s.sleepers b + s.forks b
  half := s.halfForked
  adrift := []
  reserved := s.frames.filterMap (·.pending.reserved?)

theorem contains_append_surrendered (es : List Event) (b : BlockId) :
    (h ++ es).contains (.surrendered b) =
      (h.contains (.surrendered b) || es.contains (.surrendered b)) := by
  simp only [List.contains_eq_any_beq, List.any_append]

theorem account_append_plain {es : List Event} (he : ∀ e ∈ es, e.plain = true) :
    s.account (h ++ es) = s.account h := by
  have hg : ∀ b, (h ++ es).contains (.surrendered b) = h.contains (.surrendered b) := by
    intro b
    have hn : es.contains (.surrendered b) = false := by
      refine Bool.eq_false_iff.2 fun hc => ?_
      have hm := he _ (List.contains_iff_mem.1 hc)
      cases hm
    rw [contains_append_surrendered, hn, Bool.or_false]
  simp only [account, forkerOf_append_plain h he, hg]

theorem account_surrendered (b : BlockId) :
    s.account (h ++ [.surrendered b]) = (s.account h).give b := by
  refine Account.ext (funext fun c => ?_) (funext fun c => ?_) rfl rfl rfl rfl
  · exact (forkerOf_append ..).trans (Option.or_none ..)
  · have hone : [Event.surrendered b].contains (.surrendered c) = (c == b) := by
      by_cases hcb : c = b
      · simp [hcb]
      · rw [beq_false_of_ne hcb]
        simp [hcb]
    exact (contains_append_surrendered h _ c).trans (by rw [hone, Bool.or_comm]; rfl)

theorem account_born {child parent : BlockId} (hf : forkerOf h child = none) :
    s.account (h ++ [.born child parent]) = (s.account h).beget child parent := by
  refine Account.ext (funext fun c => ?_) (funext fun c => ?_) rfl rfl rfl rfl
  · refine (forkerOf_append ..).trans ?_
    rw [forkerOf_born]
    by_cases hc : child = c
    · rw [← hc, hf, if_pos rfl]
      exact (if_pos rfl).symm
    · rw [if_neg hc, Option.or_none]
      exact (if_neg (Ne.symm hc)).symm
  · exact (contains_append_surrendered h _ c).trans (Bool.or_false _)

/-! ### Stopped forks -/

theorem forks_cons (f : Frame) (fs : List Frame) (b : BlockId) :
    ({ s with frames := f :: fs } : Session).forks b =
      ({ s with frames := fs } : Session).forks b +
        if some b = f.pending.parent? then 1 else 0 := by
  unfold forks
  rw [List.countP_cons]
  congr 1
  exact if_congr (beq_iff_eq.trans eq_comm) rfl rfl

/-- A stopped fork owes the reference on its parent. -/
theorem owed_frames_cons (f : Frame) (fs : List Frame) (b : BlockId) :
    (({ s with frames := f :: fs } : Session).account h).owed b =
      (({ s with frames := fs } : Session).account h).owed b +
        if some b = f.pending.parent? then 1 else 0 := by
  change _ + _ + forks _ b = _ + _ + forks _ b + _
  rw [forks_cons]
  exact (Nat.add_assoc ..).symm

/-- A stopped fork puts its load on the account. -/
theorem account_frames_cons (f : Frame) (fs : List Frame) :
    ({ s with frames := f :: fs } : Session).account h =
      f.pending.load (({ s with frames := fs } : Session).account h) := by
  have howed := s.owed_frames_cons h f fs
  obtain ⟨pending, purpose⟩ := f
  cases pending with
  | create pid name => exact Account.ext rfl rfl (funext howed) rfl rfl rfl
  | forkTask q pid =>
    refine Account.ext rfl rfl (funext fun b => (howed b).trans ?_) rfl rfl rfl
    simp only [Pending.parent?, Option.some.injEq]
    rfl
  | forkSpace q child =>
    refine Account.ext rfl rfl (funext fun b => (howed b).trans ?_) rfl rfl rfl
    simp only [Pending.parent?, Option.some.injEq]
    rfl
  | forkFiles q child =>
    refine Account.ext rfl rfl (funext fun b => (howed b).trans ?_) rfl rfl rfl
    simp only [Pending.parent?, Option.some.injEq]
    rfl
  | forkThread q child =>
    refine Account.ext rfl rfl (funext fun b => (howed b).trans ?_) rfl rfl rfl
    simp only [Pending.parent?, Option.some.injEq]
    rfl

/-! ### Slots -/

end Session

/-- With the reference that a slot holds. -/
def Account.oweSlot (a : Account) : Option Slot → Account
  | some (.ref b) => a.owe b
  | _ => a

/-- How many references on `b` the content of a slot is. -/
def Slot.weight (b : BlockId) : Option Slot → Nat
  | some (.ref c) => if b = c then 1 else 0
  | _ => 0

theorem Account.owed_oweSlot (a : Account) (o : Option Slot) (b : BlockId) :
    (a.oweSlot o).owed b = a.owed b + Slot.weight b o := by
  rcases o with _ | c | c <;> rfl

theorem Slot.weight_some (slot : Slot) (b : BlockId) :
    Slot.weight b (some slot) = if slot == .ref b then 1 else 0 := by
  cases slot with
  | ref c =>
    by_cases hbc : b = c
    · simp [weight, hbc]
    · have hne : (ref c == ref b) = false :=
        beq_false_of_ne fun he => hbc (ref.inj he).symm
      rw [weight, if_neg hbc, hne]
      rfl
  | bare c => simp [weight]

namespace Session

variable (s : Session) (h : List Event)

/-- The references on `b` in slots are those under other keys and the one under this. -/
theorem refs_eq (i : Nat) (b : BlockId) :
    s.refs b = (s.vacate i).refs b + Slot.weight b (s.slots.get? i) := by
  unfold refs vacate
  generalize s.slots = m
  obtain ⟨entries, nodup⟩ := m
  simp only [Assoc.erase, Assoc.get?]
  induction entries with
  | nil => rfl
  | cons e entries ih =>
    obtain ⟨hnot, hrest⟩ := List.nodup_cons.1 nodup
    have ih := ih hrest
    obtain ⟨j, slot⟩ := e
    by_cases hj : j = i
    · subst hj
      have hnone : entries.lookup j = none := List.lookup_eq_none_iff.2 fun e he =>
        bne_iff_ne.2 fun hje => hnot (by rw [hje]; exact List.mem_map.2 ⟨e, he, rfl⟩)
      rw [hnone] at ih
      rw [List.countP_cons, ih, List.filter_cons_of_neg (by simp), List.lookup_cons_self,
        Slot.weight_some]
      rfl
    · have hi : (i == j) = false := beq_false_of_ne (Ne.symm hj)
      rw [List.countP_cons, ih, List.filter_cons_of_pos (by simpa using hj), List.countP_cons,
        List.lookup_cons, hi]
      dsimp only
      omega

/-- Sessions that differ by a reference in slots. -/
theorem account_of_refs {s' : Session} {o : Option Slot} (hp : s'.parked = s.parked)
    (hf : s'.frames = s.frames) (hr : ∀ b, s'.refs b = s.refs b + Slot.weight b o) :
    s'.account h = (s.account h).oweSlot o := by
  have howed : ∀ b, (s'.account h).owed b = ((s.account h).oweSlot o).owed b := fun b => by
    rw [Account.owed_oweSlot]
    change s'.refs b + s'.sleepers b + s'.forks b = s.refs b + s.sleepers b + s.forks b + _
    rw [hr, sleepers, forks, hp, hf, sleepers, forks]
    omega
  have hh : (s'.account h).half = (s.account h).half := congrArg (List.filterMap _) hf
  have hv : (s'.account h).reserved = (s.account h).reserved := congrArg (List.filterMap _) hf
  rcases o with _ | c | c <;> exact Account.ext rfl rfl (funext howed) hh rfl hv

/-- What a slot holds is on the account beside the rest. -/
theorem account_slot (i : Nat) :
    s.account h = ((s.vacate i).account h).oweSlot (s.slots.get? i) :=
  account_of_refs (s.vacate i) h rfl rfl (s.refs_eq i)

theorem account_insert (i : Nat) (content : Slot) :
    ({ s with slots := s.slots.insert i content } : Session).account h =
      ((s.vacate i).account h).oweSlot (some content) := by
  refine account_of_refs (s.vacate i) h rfl rfl fun b => ?_
  rw [Slot.weight_some]
  exact List.countP_cons

/-! ### Sleeping waits -/

theorem account_park (w : ParkedWait) (n : Nat) :
    ({ s with parked := s.parked ++ [w], nextWait := n } : Session).account h =
      (s.account h).owe w.block := by
  refine Account.ext rfl rfl (funext fun b => ?_) rfl rfl rfl
  have hs : sleepers { s with parked := s.parked ++ [w], nextWait := n } b =
      s.sleepers b + if b = w.block then 1 else 0 := by
    unfold sleepers
    rw [List.countP_append, List.countP_singleton]
    congr 1
    exact if_congr (beq_iff_eq.trans eq_comm) rfl rfl
  change s.refs b + sleepers _ b + s.forks b = s.refs b + s.sleepers b + s.forks b + _
  rw [hs]
  omega

/-- The waits set aside keep their references until they are finished. -/
theorem account_due (due : ParkedWait → Bool) :
    s.account h = (({ s with parked := s.parked.filter (!due ·) } : Session).account h).oweAll
      ((s.parked.filter due).map (·.block)) := by
  rw [Account.oweAll_eq]
  refine Account.ext rfl rfl (funext fun b => ?_) rfl rfl rfl
  have hs : s.sleepers b = sleepers { s with parked := s.parked.filter (!due ·) } b +
      ((s.parked.filter due).map (·.block)).count b := by
    unfold sleepers
    rw [List.countP_eq_countP_filter_add s.parked _ due, List.count_eq_countP, List.countP_map,
      Nat.add_comm]
    rfl
  change s.refs b + s.sleepers b + s.forks b = s.refs b + sleepers _ b + s.forks b + _
  rw [hs]
  omega

end Session

end Lifecycle
