import Lifecycle.Proofs.Session.Acting

/-! The sleepers that a move wakes. They are finished one after the other in the
order in which they fell asleep; each finds its target reaped or collects. -/

namespace Lifecycle

/-- Finishing sleepers whose commitments are in `h`, with the events it tells. -/
inductive Wakes (h : List Event) : Kernel → List Event → Kernel → Prop
  | done {k} : Wakes h k [] k
  | gone {k k₁ k' es} (quiet : k.Quiet k₁) (rest : Wakes h k₁ es k') : Wakes h k es k'
  | collected {k k₁ k' es b caller} (committed : Event.committed b caller ∈ h)
      (reaped : (k.block b).reaped = false) (exited : (k.block b).exited = true)
      (quiet : (k.update b Block.collected).Quiet k₁) (rest : Wakes h k₁ es k') :
      Wakes h k (.collected b caller (k.block b).pid (k.block b).code :: es) k'

namespace Kernel

variable {k k₁ k' : Kernel}

/-- All that happens is that zombies are reaped. -/
structure Buries (k k' : Kernel) : Prop where
  size : k'.blocks.size = k.blocks.size
  core : ∀ b, (k'.block b).core = (k.block b).core ∨
    (k.block b).exited = true ∧ (k'.block b).core = (k.block b).collected.core

theorem Quiet.buries (h : k.Quiet k') : k.Buries k' := ⟨h.size, fun b => Or.inl (h.core b)⟩

theorem buries_collected {b : BlockId} (he : (k.block b).exited = true)
    (hq : (k.update b Block.collected).Quiet k') : k.Buries k' := by
  refine ⟨hq.size.trans (size_update ..), fun c => ?_⟩
  rw [hq.core, block_update]
  split
  · next hc => rw [hc.1]; exact Or.inr ⟨he, rfl⟩
  · exact Or.inl rfl

namespace Buries

theorem trans (h : k.Buries k₁) (h' : k₁.Buries k') : k.Buries k' := by
  refine ⟨h'.size.trans h.size, fun b => ?_⟩
  have hcollected : ∀ {x y : Block}, x.core = y.core → x.collected.core = y.collected.core :=
    congrArg Block.collected
  rcases h.core b with hc | ⟨he, hc⟩ <;> rcases h'.core b with hd | ⟨hf, hd⟩
  · exact Or.inl (hd.trans hc)
  · exact Or.inr ⟨(Block.exited_of_core hc).symm.trans hf, hd.trans (hcollected hc)⟩
  · exact Or.inr ⟨he, hd.trans hc⟩
  · exact Or.inr ⟨he, hd.trans (hcollected (y := (k.block b).collected) hc)⟩

variable (h : k.Buries k') (b : BlockId)
include h

/-- What neither the counts nor being reaped bears on stays as it was. -/
theorem view {α : Type} (f : Block → α) (hf : ∀ {x y : Block}, x.core = y.core → f x = f y)
    (hc : ∀ x : Block, f x.collected = f x) : f (k'.block b) = f (k.block b) := by
  rcases h.core b with hb | ⟨-, hb⟩
  · exact hf hb
  · exact (hf hb).trans (hc _)

theorem pid : (k'.block b).pid = (k.block b).pid :=
  h.view b _ Block.pid_of_core fun _ => rfl

theorem parent : (k'.block b).parent = (k.block b).parent :=
  h.view b _ Block.parent_of_core fun _ => rfl

theorem exiting : (k'.block b).exiting = (k.block b).exiting :=
  h.view b _ Block.exiting_of_core fun _ => rfl

theorem exited : (k'.block b).exited = (k.block b).exited :=
  h.view b _ Block.exited_of_core fun _ => rfl

theorem waiter : (k'.block b).waiter = (k.block b).waiter :=
  h.view b _ Block.waiter_of_core fun _ => rfl

theorem code : (k'.block b).code = (k.block b).code :=
  h.view b _ Block.code_of_core fun _ => rfl

theorem reaped (hr : (k.block b).reaped = true) : (k'.block b).reaped = true := by
  rcases h.core b with hc | ⟨-, hc⟩
  · exact (Block.reaped_of_core hc).trans hr
  · exact Block.reaped_of_core (y := (k.block b).collected) hc

theorem unreaped (hr : (k'.block b).reaped = false) : (k.block b).reaped = false :=
  Bool.eq_false_iff.2 fun hx => absurd (h.reaped b hx) (Bool.eq_false_iff.1 hr)

/-- A process that runs goes on running, and one that does not never runs again. -/
theorem running : (k'.block b).state = .running ↔ (k.block b).state = .running := by
  rw [Block.state_eq_running_iff, Block.state_eq_running_iff]
  rcases h.core b with hc | ⟨he, hc⟩
  · rw [Block.reaped_of_core hc, Block.exited_of_core hc]
  · rw [Block.exited_of_core hc]
    change _ ∧ (k.block b).exited = false ↔ _
    rw [he]
    simp

end Buries

theorem Buries.persists (h : k.Buries k') : k.Persists k' fun _ => False :=
  ⟨Nat.le_of_eq h.size.symm, fun b _ => h.pid b, fun b _ _ => h.exiting b⟩

end Kernel

namespace Wakes

variable {h : List Event} {k k' : Kernel} {es : List Event}

theorem buries (hw : Wakes h k es k') : k.Buries k' := by
  induction hw with
  | done => exact (Kernel.Quiet.refl _).buries
  | gone quiet _ ih => exact quiet.buries.trans ih
  | collected _ _ exited quiet _ ih => exact (Kernel.buries_collected exited quiet).trans ih

theorem plain (hw : Wakes h k es k') : ∀ e ∈ es, e.plain = true := by
  induction hw with
  | done => exact fun e he => absurd he List.not_mem_nil
  | gone _ _ ih => exact ih
  | collected _ _ _ _ _ ih =>
    intro e he
    rcases List.mem_cons.1 he with rfl | he
    · rfl
    · exact ih e he

end Wakes

namespace Session

variable {s : Session} {h : List Event}

theorem isDue_iff (k : Kernel) (w : ParkedWait) :
    isDue k w = true ↔ (k.block w.block).state ≠ .running := by
  unfold isDue
  exact bne_iff_ne

/-- A sleeper is found by its number. -/
theorem Ready.find_parked (r : s.Ready h) {w : ParkedWait} (hw : w ∈ s.parked) :
    s.parked.find? (·.id == w.id) = some w := by
  have hn := r.ids
  generalize s.parked = ws at hn hw
  induction ws with
  | nil => cases hw
  | cons v ws ih =>
    obtain ⟨hv, hrest⟩ := List.nodup_cons.1 hn
    rw [List.find?_cons]
    rcases List.mem_cons.1 hw with rfl | hw
    · rw [beq_self_eq_true]
    · have hne : (v.id == w.id) = false :=
        beq_false_of_ne fun he => hv (List.mem_map.2 ⟨w, hw, he.symm⟩)
      rw [hne]
      exact ih hrest hw

/-- Finishing the sleepers in turn, each with its reference on the account. -/
theorem Ready.wake_all (r : s.Ready h) (ws : List ParkedWait) (hws : ∀ w ∈ ws, w ∈ s.parked)
    {t : Session} (hk : t.kernel.Sound ((t.account h).oweAll (ws.map (·.block))))
    (hdue : ∀ w ∈ ws, isDue t.kernel w = true) (out : List Woken) :
    ∃ (woken : List Woken) (k' : Kernel),
      ws.foldl wakeOne (out, t) = (woken.reverse ++ out, { t with kernel := k' }) ∧
      Wakes h t.kernel (woken.flatMap s.wakeEvents) k' ∧ k'.Sound (t.account h) := by
  induction ws generalizing t out with
  | nil => exact ⟨[], t.kernel, rfl, .done, hk⟩
  | cons w ws ih =>
    rw [List.map_cons, Account.oweAll, List.foldl_cons, ← Account.oweAll,
      Account.oweAll_owe] at hk
    have hwoke := hk.wake ((isDue_iff ..).1 (hdue w List.mem_cons_self))
    have hin := hws w List.mem_cons_self
    have hrest : ∀ {k₁ : Kernel}, t.kernel.Buries k₁ → ∀ v ∈ ws, isDue k₁ v = true :=
      fun hb v hv => by
        rw [isDue_iff, Ne, hb.running, ← Ne, ← isDue_iff]
        exact hdue v (List.mem_cons_of_mem _ hv)
    rw [List.foldl_cons, wakeOne]
    generalize t.kernel.wake w.block = result at hwoke
    obtain ⟨result, k₁⟩ := result
    dsimp only at hwoke ⊢
    generalize hx : (⟨w.id, ⟨w.via, result, copyOut w.destination result⟩⟩ : Woken) = x
    have hlater : t.kernel.Buries k₁ → k₁.Sound ((t.account h).oweAll (ws.map (·.block))) → _ :=
      fun hb sound => ih (fun v hv => hws v (List.mem_cons_of_mem _ hv))
        (t := { t with kernel := k₁ }) sound (hrest hb) (x :: out)
    cases hwoke with
    | gone reaped quiet sound =>
      obtain ⟨woken, k', hfold, hwakes, hsound⟩ := hlater quiet.buries sound
      refine ⟨x :: woken, k', ?_, ?_, hsound⟩
      · rw [hfold, List.reverse_cons, List.append_assoc]
        rfl
      · rw [List.flatMap_cons, ← hx]
        exact .gone quiet hwakes
    | collected reaped exited quiet sound =>
      obtain ⟨woken, k', hfold, hwakes, hsound⟩ :=
        hlater (Kernel.buries_collected exited quiet) sound
      refine ⟨x :: woken, k', ?_, ?_, hsound⟩
      · rw [hfold, List.reverse_cons, List.append_assoc]
        rfl
      · rw [List.flatMap_cons, ← hx, wakeEvents, r.find_parked hin]
        exact .collected (r.waits w hin).1 reaped exited quiet hwakes

/-- Settling finishes the sleepers whose targets have stopped running. -/
theorem Sound.settle (hs : s.Sound h) :
    Wakes h s.kernel (s.settle.1.flatMap s.wakeEvents) s.settle.2.kernel ∧
      s.settle.2.Sound (h ++ s.settle.1.flatMap s.wakeEvents) ∧ s.settle.2.Settled := by
  have hk := hs.kernel
  rw [account_due s h (isDue s.kernel)] at hk
  obtain ⟨woken, k', hfold, hwakes, hsound⟩ := hs.ready.wake_all
    (s.parked.filter (isDue s.kernel)) (fun w hw => List.mem_of_mem_filter hw)
    (t := { s with parked := s.parked.filter (!isDue s.kernel ·) }) hk
    (fun w hw => (List.mem_filter.1 hw).2) []
  have hsettle : s.settle = (woken,
      { s with kernel := k', parked := s.parked.filter (!isDue s.kernel ·) }) := by
    rw [Session.settle, hfold, List.append_nil, List.reverse_reverse]
  rw [hsettle]
  have hb := hwakes.buries
  refine ⟨hwakes, Sound.append_plain ⟨hsound, ?_⟩ hwakes.plain, fun w hw => ?_⟩
  · exact (hs.ready.filter_parked _).persist_all hs.forker_lt hb.persists
  · have hdue : isDue s.kernel w = false := by simpa using (List.mem_filter.1 hw).2
    refine Bool.eq_false_iff.2 fun hd => ?_
    rw [isDue_iff, Ne, hb.running, ← Ne, ← isDue_iff, hdue] at hd
    cases hd

end Session

end Lifecycle
