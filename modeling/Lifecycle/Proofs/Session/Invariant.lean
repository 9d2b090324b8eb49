import Lifecycle.Proofs.Kernel.Waiting
import Lifecycle.Proofs.Session.Account

/-! The invariant of a session with its history: the table is sound for what the
session holds, and contexts, slots, stopped forks and sleeping waits name the
blocks they should. -/

namespace Lifecycle

namespace Session

/-- The children of the forks that have stopped. -/
def inFlight (s : Session) : List BlockId := s.frames.filterMap (·.pending.child?)

/-- What a context stands for: a process that runs and whose fork is complete. -/
def Serves (s : Session) (h : List Event) (pid : Pid) (b : BlockId) : Prop :=
  (s.kernel.block b).pid = pid ∧ (∃ q, forkerOf h b = some q) ∧
    (s.kernel.block b).exiting = false ∧ b ∉ s.inFlight

structure Ready (s : Session) (h : List Event) : Prop where
  fits : ∀ f ∈ s.frames, f.pending.Fits s.kernel (s.account h)
  children : s.inFlight.Nodup
  contexts : ∀ {pid n}, s.contexts.get? pid = some n → ∃ b, s.Serves h pid b
  bare : ∀ {i b}, s.slots.get? i = some (.bare b) →
    b < s.kernel.blocks.size ∧ b ≠ Kernel.root ∧ forkerOf h b = none
  waits : ∀ w ∈ s.parked, Event.committed w.block w.caller ∈ h ∧ w.id < s.nextWait
  ids : (s.parked.map (·.id)).Nodup

structure Sound (s : Session) (h : List Event) : Prop where
  kernel : s.kernel.Sound (s.account h)
  ready : s.Ready h

/-- Every sleeping wait sleeps on a process that runs. -/
def Settled (s : Session) : Prop := ∀ w ∈ s.parked, isDue s.kernel w = false

end Session

namespace Pending

theorem Fits.mono {k k' : Kernel} {a a' : Account} {p : Pending} (hp : p.Fits k a)
    (hf : ∀ {b q}, a.forker b = some q → a'.forker b = some q)
    (hh : ∀ c, p.child? = some c → c ∈ a'.half → c ∈ a.half)
    (he : ∀ c, p.child? = some c → (k.block c).exiting = false → (k'.block c).exiting = false) :
    p.Fits k' a' := by
  cases p with
  | create _ _ => trivial
  | forkTask _ _ => trivial
  | forkSpace _ _ => exact hf hp
  | forkFiles _ _ => exact hf hp
  | forkThread q c => exact ⟨hf hp.1, fun hm => hp.2.1 (hh c rfl hm), he c rfl hp.2.2⟩

/-- A child in flight is the child of its fork's parent. -/
theorem Fits.forker {k : Kernel} {a : Account} {p : Pending} (hp : p.Fits k a) {c : BlockId}
    (hc : p.child? = some c) : ∃ q, a.forker c = some q := by
  cases p with
  | create _ _ => cases hc
  | forkTask _ _ => cases hc
  | forkSpace q _ => exact ⟨q, Option.some.inj hc ▸ hp⟩
  | forkFiles q _ => exact ⟨q, Option.some.inj hc ▸ hp⟩
  | forkThread q _ => exact ⟨q, Option.some.inj hc ▸ hp.1⟩

/-- It has not begun to exit. -/
theorem Fits.child_running {k : Kernel} {a : Account} {p : Pending} (hp : p.Fits k a)
    (hk : k.Sound (p.load a)) {c : BlockId} (hc : p.child? = some c) :
    (k.block c).exiting = false := by
  cases p with
  | create _ _ => cases hc
  | forkTask _ _ => cases hc
  | forkSpace _ _ => cases hc; exact (hk.kindred.half c List.mem_cons_self).2.2.1
  | forkFiles _ _ => cases hc; exact (hk.kindred.half c List.mem_cons_self).2.2.1
  | forkThread _ _ => cases hc; exact hp.2.2

theorem child?_of_half? {p : Pending} {c : BlockId} (hc : p.half? = some c) :
    p.child? = some c := by
  cases p <;> first | exact hc | cases hc

end Pending

namespace Kernel

/-- No block is lost, and none outside `out` begins to exit. -/
structure Persists (k k' : Kernel) (out : BlockId → Prop) : Prop where
  size : k.blocks.size ≤ k'.blocks.size
  pid : ∀ b < k.blocks.size, (k'.block b).pid = (k.block b).pid
  exiting : ∀ b < k.blocks.size, ¬out b → (k'.block b).exiting = (k.block b).exiting

variable {k k' : Kernel}

theorem Quiet.persists (hq : k.Quiet k') (out : BlockId → Prop) : k.Persists k' out :=
  ⟨Nat.le_of_eq hq.size.symm, fun b _ => hq.pid b, fun b _ _ => hq.exiting b⟩

/-- A block that changes may begin to exit. -/
theorem Persists.of_update {c : BlockId} {f : Block → Block} (hq : (k.update c f).Quiet k')
    (hf : (f (k.block c)).pid = (k.block c).pid) : k.Persists k' (· = c) := by
  refine ⟨Nat.le_of_eq (hq.size.trans (size_update ..)).symm, fun b _ => ?_, fun b _ hb => ?_⟩
  · rw [hq.pid, view_update Block.pid hf]
  · rw [hq.exiting, block_update_of_ne hb]

/-- So may none, if the change leaves the flag alone. -/
theorem Persists.of_update_exiting {c : BlockId} {f : Block → Block}
    (hq : (k.update c f).Quiet k') (hf : (f (k.block c)).pid = (k.block c).pid)
    (he : (f (k.block c)).exiting = (k.block c).exiting) : k.Persists k' fun _ => False := by
  have hp := Persists.of_update hq hf
  refine ⟨hp.size, hp.pid, fun b _ _ => ?_⟩
  rw [hq.exiting, view_update Block.exiting he]

theorem Persists.of_add {block : Block} (hb : k'.blocks = k.blocks.add block) :
    k.Persists k' fun _ => False := by
  refine ⟨?_, fun b hlt => by rw [block_of_add_of_lt hb hlt],
    fun b hlt _ => by rw [block_of_add_of_lt hb hlt]⟩
  rw [size_of_add hb]
  exact Nat.le_succ _

end Kernel

namespace Session

variable {s : Session} {h : List Event}

theorem mem_inFlight {c : BlockId} :
    c ∈ s.inFlight ↔ ∃ f ∈ s.frames, f.pending.child? = some c :=
  List.mem_filterMap

theorem mem_halfForked {c : BlockId} :
    c ∈ s.halfForked ↔ ∃ f ∈ s.frames, f.pending.half? = some c :=
  List.mem_filterMap

theorem inFlight_of_halfForked {c : BlockId} (hc : c ∈ s.halfForked) : c ∈ s.inFlight := by
  obtain ⟨f, hf, hp⟩ := mem_halfForked.1 hc
  exact mem_inFlight.2 ⟨f, hf, Pending.child?_of_half? hp⟩

namespace Ready

/-- A change of the table in which nothing begins to exit that a context or a stopped
fork counts on. -/
theorem persist {k' : Kernel} {out : BlockId → Prop} (r : s.Ready h)
    (hborn : ∀ {b q}, forkerOf h b = some q → b < s.kernel.blocks.size)
    (hp : s.kernel.Persists k' out) (hflight : ∀ b ∈ s.inFlight, ¬out b)
    (hctx : ∀ {pid n}, s.contexts.get? pid = some n → ∃ b, s.Serves h pid b ∧ ¬out b) :
    Ready { s with kernel := k' } h where
  fits f hf := by
    refine (r.fits f hf).mono (fun hq => hq) (fun _ _ hm => hm) fun c hc he => ?_
    obtain ⟨q, hq⟩ := (r.fits f hf).forker hc
    exact (hp.exiting c (hborn hq) (hflight c (mem_inFlight.2 ⟨f, hf, hc⟩))).trans he
  children := r.children
  contexts {pid n} hn := by
    obtain ⟨b, ⟨hbp, ⟨q, hq⟩, he, hin⟩, hout⟩ := hctx hn
    have hlt := hborn hq
    exact ⟨b, (hp.pid b hlt).trans hbp, ⟨q, hq⟩,
      (hp.exiting b hlt hout).trans he, hin⟩
  bare hi := by
    obtain ⟨hlt, hr, hf⟩ := r.bare hi
    exact ⟨Nat.lt_of_lt_of_le hlt hp.size, hr, hf⟩
  waits := r.waits
  ids := r.ids

/-- A change in which nothing begins to exit. -/
theorem persist_all {k' : Kernel} (r : s.Ready h)
    (hborn : ∀ {b q}, forkerOf h b = some q → b < s.kernel.blocks.size)
    (hp : s.kernel.Persists k' fun _ => False) : Ready { s with kernel := k' } h :=
  r.persist hborn hp (fun _ _ hf => hf) fun hn => (r.contexts hn).imp fun _ hb => ⟨hb, id⟩

/-- A longer history that says nothing of the forkers of bare blocks. -/
theorem append (r : s.Ready h) (es : List Event)
    (he : ∀ {i b}, s.slots.get? i = some (.bare b) → forkerOf es b = none) :
    s.Ready (h ++ es) where
  fits f hf := (r.fits f hf).mono (fun hq => forkerOf_append_of_some hq es)
    (fun _ _ hm => hm)
    fun _ _ hx => hx
  children := r.children
  contexts hn := by
    obtain ⟨b, hbp, ⟨q, hq⟩, hx⟩ := r.contexts hn
    exact ⟨b, hbp, ⟨q, forkerOf_append_of_some hq es⟩, hx⟩
  bare hi := by
    obtain ⟨hlt, hr, hf⟩ := r.bare hi
    exact ⟨hlt, hr, by rw [forkerOf_append, hf, he hi]; rfl⟩
  waits w hw := (r.waits w hw).imp_left fun hm => List.mem_append_left _ hm
  ids := r.ids

/-! ### Stopped forks -/

/-- A fork that has ended. -/
theorem pop (r : s.Ready h) {f : Frame} {fs : List Frame} (hs : s.frames = f :: fs) :
    Ready { s with frames := fs } h where
  fits g hg := by
    refine (r.fits g (hs ▸ List.mem_cons_of_mem _ hg)).mono (fun hq => hq) (fun c _ hc => ?_)
      fun _ _ hx => hx
    obtain ⟨g, hg, hp⟩ := mem_halfForked.1 hc
    exact mem_halfForked.2 ⟨g, hs ▸ List.mem_cons_of_mem _ hg, hp⟩
  children := by
    have hn := r.children
    rw [inFlight, hs] at hn
    exact hn.sublist ((List.sublist_cons_self f fs).filterMap _)
  contexts hn := by
    obtain ⟨b, hbp, hq, he, hin⟩ := r.contexts hn
    refine ⟨b, hbp, hq, he, fun hm => hin ?_⟩
    obtain ⟨g, hg, hc⟩ := mem_inFlight.1 hm
    exact mem_inFlight.2 ⟨g, hs ▸ List.mem_cons_of_mem _ hg, hc⟩
  bare := r.bare
  waits := r.waits
  ids := r.ids

/-- A fork that stops for the first time has no child yet. -/
theorem push (r : s.Ready h) {f : Frame} (hf : f.pending.Fits s.kernel (s.account h))
    (hc : f.pending.child? = none) : Ready { s with frames := f :: s.frames } h := by
  have hflight : inFlight { s with frames := f :: s.frames } = s.inFlight :=
    List.filterMap_cons_none hc
  have hhalf : halfForked { s with frames := f :: s.frames } = s.halfForked := by
    refine List.filterMap_cons_none (Option.eq_none_iff_forall_ne_some.2 fun c hp => ?_)
    cases hc.symm.trans (Pending.child?_of_half? hp)
  refine ⟨fun g hg => ?_, ?_, fun hn => ?_, r.bare, r.waits, r.ids⟩
  · have hfit : g.pending.Fits s.kernel (s.account h) := by
      rcases List.mem_cons.1 hg with rfl | hg
      · exact hf
      · exact r.fits g hg
    refine hfit.mono (fun hq => hq) (fun c _ hm => ?_) fun _ _ hx => hx
    change c ∈ halfForked _ at hm
    rwa [hhalf] at hm
  · rw [hflight]
    exact r.children
  · obtain ⟨b, hbp, hq, he, hin⟩ := r.contexts hn
    exact ⟨b, hbp, hq, he, by rwa [hflight]⟩

/-- A fork that stops again has the child it had. -/
theorem swap (r : s.Ready h) {f g : Frame} {fs : List Frame} (hs : s.frames = f :: fs)
    (hg : g.pending.Fits s.kernel (account { s with frames := g :: fs } h))
    (hc : g.pending.child? = f.pending.child?)
    (hh : ∀ c, g.pending.half? = some c → f.pending.half? = some c) :
    Ready { s with frames := g :: fs } h := by
  have hflight : inFlight { s with frames := g :: fs } = s.inFlight := by
    simp only [inFlight, hs, List.filterMap_cons, hc]
  have hhalf : ∀ c ∈ halfForked { s with frames := g :: fs }, c ∈ s.halfForked := by
    intro c hm
    rw [mem_halfForked, hs]
    obtain ⟨e, he, hp⟩ := mem_halfForked.1 hm
    rcases List.mem_cons.1 he with rfl | he
    · exact ⟨f, List.mem_cons_self, hh c hp⟩
    · exact ⟨e, List.mem_cons_of_mem _ he, hp⟩
  refine ⟨fun e he => ?_, ?_, fun hn => ?_, r.bare, r.waits, r.ids⟩
  · rcases List.mem_cons.1 he with rfl | he
    · exact hg
    · exact (r.fits e (hs ▸ List.mem_cons_of_mem _ he)).mono (fun hq => hq)
        (fun c _ => hhalf c) fun _ _ hx => hx
  · rw [hflight]
    exact r.children
  · obtain ⟨b, hbp, hq, he, hin⟩ := r.contexts hn
    exact ⟨b, hbp, hq, he, by rwa [hflight]⟩

/-- A child whose block is made is in flight from then on. -/
theorem bear (r : s.Ready h) {q c : BlockId} {purpose : Purpose}
    (hf : forkerOf h c = some q) (hflight : c ∉ s.inFlight)
    (hctx : ∀ {pid n}, s.contexts.get? pid = some n → (s.kernel.block c).pid ≠ pid) :
    Ready { s with frames := ⟨.forkSpace q c, purpose⟩ :: s.frames } h := by
  refine ⟨fun g hg => ?_, ?_, fun hn => ?_, r.bare, r.waits, r.ids⟩
  · rcases List.mem_cons.1 hg with rfl | hold
    · exact hf
    · refine (r.fits g hold).mono (fun hq => hq) (fun d hd hm => ?_) fun _ _ hx => hx
      have hdc : d ≠ c := fun hdc => hflight (hdc ▸ mem_inFlight.2 ⟨g, hold, hd⟩)
      exact (List.mem_cons.1 hm).resolve_left hdc
  · exact List.nodup_cons.2 ⟨hflight, r.children⟩
  · obtain ⟨b, hbp, hq, he, hin⟩ := r.contexts hn
    refine ⟨b, hbp, hq, he, ?_⟩
    rintro (_ | ⟨_, hm⟩)
    · exact hctx hn hbp
    · exact hin hm

/-! ### Contexts, slots and sleeping waits -/

/-- A process whose fork is complete gets a context. -/
theorem enter (r : s.Ready h) {pid : Pid} {b : BlockId} (hb : s.Serves h pid b) (n m : Nat) :
    Ready { s with contexts := s.contexts.insert pid n, nextContext := m } h where
  fits := r.fits
  children := r.children
  contexts {p j} hj := by
    change (s.contexts.insert pid n).get? p = some j at hj
    rw [Assoc.get?_insert] at hj
    split at hj
    · next hp => exact ⟨b, hp ▸ hb⟩
    · exact r.contexts hj
  bare := r.bare
  waits := r.waits
  ids := r.ids

theorem leave (r : s.Ready h) (pid : Pid) :
    Ready { s with contexts := s.contexts.erase pid } h where
  fits := r.fits
  children := r.children
  contexts {p j} hj := by
    change (s.contexts.erase pid).get? p = some j at hj
    rw [Assoc.get?_erase] at hj
    split at hj
    · cases hj
    · exact r.contexts hj
  bare := r.bare
  waits := r.waits
  ids := r.ids

theorem vacate (r : s.Ready h) (i : Nat) : (s.vacate i).Ready h where
  fits := r.fits
  children := r.children
  contexts := r.contexts
  bare {j b} hj := by
    change (s.slots.erase i).get? j = some _ at hj
    rw [Assoc.get?_erase] at hj
    split at hj
    · cases hj
    · exact r.bare hj
  waits := r.waits
  ids := r.ids

theorem fill (r : s.Ready h) (i : Nat) {content : Slot}
    (hc : ∀ b, content = .bare b → b < s.kernel.blocks.size ∧ b ≠ Kernel.root ∧
      forkerOf h b = none) : Ready { s with slots := s.slots.insert i content } h where
  fits := r.fits
  children := r.children
  contexts := r.contexts
  bare {j b} hj := by
    change (s.slots.insert i content).get? j = some _ at hj
    rw [Assoc.get?_insert] at hj
    split at hj
    · exact hc b (Option.some.inj hj)
    · exact r.bare hj
  waits := r.waits
  ids := r.ids

/-- A wait that falls asleep has a number of its own. -/
theorem park (r : s.Ready h) {w : ParkedWait} (hw : Event.committed w.block w.caller ∈ h)
    (hid : w.id = s.nextWait) :
    Ready { s with parked := s.parked ++ [w], nextWait := s.nextWait + 1 } h where
  fits := r.fits
  children := r.children
  contexts := r.contexts
  bare := r.bare
  waits v hv := by
    rcases List.mem_append.1 hv with hv | hv
    · exact (r.waits v hv).imp_right Nat.lt_succ_of_lt
    · obtain rfl := List.mem_singleton.1 hv
      exact ⟨hw, hid ▸ Nat.lt_succ_self _⟩
  ids := by
    rw [List.map_append, List.nodup_append]
    refine ⟨r.ids, List.nodup_cons.2 ⟨List.not_mem_nil, List.nodup_nil⟩, ?_⟩
    rintro i hi j hj rfl
    obtain ⟨v, hv, rfl⟩ := List.mem_map.1 hi
    have hlt : v.id < s.nextWait := (r.waits v hv).2
    have heq : v.id = w.id := List.mem_singleton.1 hj
    omega

theorem filter_parked (r : s.Ready h) (p : ParkedWait → Bool) :
    Ready { s with parked := s.parked.filter p } h where
  fits := r.fits
  children := r.children
  contexts := r.contexts
  bare := r.bare
  waits w hw := r.waits w (List.mem_of_mem_filter hw)
  ids := r.ids.sublist (List.filter_sublist.map _)

end Ready

end Session

end Lifecycle
