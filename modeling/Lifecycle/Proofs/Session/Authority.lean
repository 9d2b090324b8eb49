import Lifecycle.Proofs.Session.Delivery
import Lifecycle.Proofs.Session.Tree

/-! Who may wait. A wait is committed by the forker of its target, or by the kernel
once the forker has begun to exit, except in two cases: the target is half-forked, or
its forker is gone and another process has its pid. -/

namespace Lifecycle

/-- Whether a wait is refused because the target is another's child, or has a waiter. -/
def Reply.denies : Reply → Bool
  | .waited ⟨_, .error (.notChild _ _), _⟩ => true
  | .waited ⟨_, .error (.alreadyWaited _), _⟩ => true
  | _ => false

def Event.commits (b : BlockId) : Event → Bool
  | .committed c _ => c == b
  | _ => false

namespace Session

/-- The caller is the process that forked the block, or the kernel once that one has
begun to exit. -/
def Authorised (s : Session) (h : List Event) (b : BlockId) (caller : Pid) : Prop :=
  ∃ q, forkerOf h b = some q ∧ (s.kernel.pids.lookup caller = some q ∨
    caller = kernelPid ∧ (s.kernel.block q).exiting = true)

/-- A wait on a child that its forker has not linked yet, or whose forker is gone. -/
def usurps (s : Session) (q b : BlockId) (caller : Pid) : Bool :=
  (s.halfForked.contains b && q != Kernel.root && !(s.kernel.block q).exiting) ||
    (caller != kernelPid && s.kernel.pids.lookup (s.kernel.block q).pid != some q)

variable {s : Session} {h : List Event}

theorem usurps_iff {q b : BlockId} {caller : Pid} : s.usurps q b caller = true ↔
    b ∈ s.halfForked ∧ q ≠ Kernel.root ∧ (s.kernel.block q).exiting = false ∨
      caller ≠ kernelPid ∧ s.kernel.pids.lookup (s.kernel.block q).pid ≠ some q := by
  simp only [usurps, Bool.or_eq_true, Bool.and_eq_true, Bool.not_eq_true', bne_iff_ne,
    List.contains_iff_mem, and_assoc]

/-! ### Commitments -/

/-- What a wait has found when it is committed. -/
structure Commits (s : Session) (move : Move) (b : BlockId) (caller : Pid) : Prop where
  move : ∃ target options via destination, move = .wait caller target options via destination ∧
    s.target? target = some b
  found : s.kernel.pids.lookup (s.kernel.block b).pid = some b
  parent : (s.kernel.block b).parent = some caller
  waiter : (s.kernel.block b).waiter = false
  reaped : (s.kernel.block b).reaped = false

theorem Sound.commits (hs : s.Sound h) {move : Move} {es : List Event} {k' : Kernel}
    (he : s.Effect h move es k') {b : BlockId} {caller : Pid} (hc : .committed b caller ∈ es) :
    s.Commits move b caller := by
  cases he with
  | slept named found parent waiter reaped exited quiet =>
    cases List.mem_singleton.1 hc
    exact ⟨⟨_, _, _, _, rfl, target?_eq named found⟩, hs.kernel.lookup_of_installed found, parent,
      waiter, reaped⟩
  | collected named found parent waiter reaped exited quiet =>
    obtain ⟨rfl, rfl⟩ : b = _ ∧ caller = _ := by simpa using hc
    exact ⟨⟨_, _, _, _, rfl, target?_eq named found⟩, hs.kernel.lookup_of_installed found, parent,
      waiter, reaped⟩
  | left found forker running landed size core => simp at hc
  | _ => simp at hc

/-- Waking tells of no commitment. -/
theorem not_committed_of_wakes {k k' : Kernel} {es : List Event} (hw : Wakes h k es k')
    {b : BlockId} {caller : Pid} : .committed b caller ∉ es := by
  induction hw with
  | done => exact List.not_mem_nil
  | gone _ _ ih => exact ih
  | collected _ _ _ _ _ ih => simpa using ih

theorem Sound.commits_step (hs : s.Sound h) {move : Move} (hp : move.permitted s h = true)
    {b : BlockId} {caller : Pid} (hc : .committed b caller ∈ s.events move) :
    s.Commits move b caller := by
  obtain ⟨acted, told, k, he, hstep⟩ := hs.step hp
  rw [he] at hc
  rcases List.mem_append.1 hc with hc | hc
  · exact hs.commits hstep.effect hc
  · exact absurd hc (not_committed_of_wakes hstep.wakes)

/-- A commitment has the authority if and only if it does not usurp. -/
theorem Sound.authorised_iff (hs : s.Sound h) {move : Move} {b q : BlockId} {caller : Pid}
    (hc : s.Commits move b caller) (hf : forkerOf h b = some q) :
    s.Authorised h b caller ↔ s.usurps q b caller = false := by
  have hroot : s.kernel.pids.lookup kernelPid = some Kernel.root := hs.kernel.lookup_root
  have hlt := hs.forker_lt hf
  have hparent : caller = kernelPid ∨ caller = (s.kernel.block q).pid := by
    rcases hs.kernel.kindred.parent b hlt (hs.kernel.ne_root_of_forker hf) with hp | ⟨q', hf', hp⟩
    · exact Or.inl (Option.some.inj (hc.parent.symm.trans hp))
    · obtain rfl := Option.some.inj (hf.symm.trans hf')
      exact Or.inr (Option.some.inj (hc.parent.symm.trans hp))
  have hhalf : b ∈ s.halfForked → caller = kernelPid := fun hm =>
    Option.some.inj (hc.parent.symm.trans (hs.kernel.kindred.half b hm).2.1)
  rw [← Bool.not_eq_true, usurps_iff]
  constructor
  · rintro ⟨q', hf', hor⟩ husurps
    obtain rfl := Option.some.inj (hf.symm.trans hf')
    rcases husurps with ⟨hm, hq, he⟩ | ⟨hk, hgone⟩
    · rcases hor with hl | ⟨-, hx⟩
      · rw [hhalf hm, hroot] at hl
        exact hq (Option.some.inj hl).symm
      · exact Bool.false_ne_true (he.symm.trans hx)
    · rcases hor with hl | ⟨hc, -⟩
      · exact hgone (hs.kernel.lookup_of_installed hl)
      · exact hk hc
  · intro hnot
    refine ⟨q, hf, ?_⟩
    by_cases hk : caller = kernelPid
    · subst hk
      by_cases hq : q = Kernel.root
      · exact Or.inl (hq ▸ hroot)
      · refine Or.inr ⟨rfl, Bool.of_not_eq_false fun he => ?_⟩
        -- a child of the kernel that another forked is half-forked
        have hm : b ∉ s.halfForked := fun hm => hnot (Or.inl ⟨hm, hq, he⟩)
        rcases hs.kernel.kindred.moved hf hm hc.reaped hc.parent with hq' | hx
        · exact hq hq'
        · exact Bool.false_ne_true (he.symm.trans hx)
    · have hl : s.kernel.pids.lookup (s.kernel.block q).pid = some q :=
        Classical.byContradiction fun hgone => hnot (Or.inr ⟨hk, hgone⟩)
      exact Or.inl (hparent.resolve_left hk ▸ hl)

/-! ### What the history knows of waits -/

/-- The waiter of a block is set by a commitment and by nothing else. -/
theorem Sound.waiter_act (hs : s.Sound h) {move : Move} {es : List Event} {k' : Kernel}
    (he : s.Effect h move es k') (b : BlockId) : (k'.block b).waiter = true ↔
      (s.kernel.block b).waiter = true ∨ ∃ caller, .committed b caller ∈ es := by
  have hsame : (k'.block b).waiter = (s.kernel.block b).waiter →
      (∀ caller, .committed b caller ∉ es) → ((k'.block b).waiter = true ↔
        (s.kernel.block b).waiter = true ∨ ∃ caller, .committed b caller ∈ es) :=
    fun hw hn => by
      rw [hw]
      exact ⟨Or.inl, fun hor => hor.resolve_right fun ⟨caller, hc⟩ => hn caller hc⟩
  have hcommit : ∀ {c : BlockId} {f : Block → Block} {pid : Pid} (caller : Pid),
      (s.kernel.update c f).Quiet k' → s.kernel.pids.lookup pid = some c →
      (∀ x : Block, (f x).waiter = true) → (∀ d, .committed b d ∈ es ↔ b = c ∧ d = caller) →
      ((k'.block b).waiter = true ↔
        (s.kernel.block b).waiter = true ∨ ∃ caller, .committed b caller ∈ es) := by
    intro c f pid caller hq hl hf hes
    by_cases hbc : b = c
    · subst hbc
      rw [hq.waiter, Kernel.block_update_self (hs.kernel.placed.own hl).1]
      exact iff_of_true (hf _) (Or.inr ⟨caller, (hes caller).2 ⟨rfl, rfl⟩⟩)
    · refine hsame ?_ fun d hd => hbc ((hes d).1 hd).1
      rw [hq.waiter, Kernel.block_update_of_ne hbc]
  cases he with
  | quiet quiet => exact hsame (quiet.waiter b) fun _ => List.not_mem_nil
  | surrendered free quiet => exact hsame (quiet.waiter b) (by simp)
  | made blocks quiet =>
    exact hsame ((quiet.waiter b).trans (Kernel.view_of_add blocks rfl b)) fun _ => List.not_mem_nil
  | born blocks => exact hsame (Kernel.view_of_add blocks rfl b) (by simp)
  | left found forker running landed size core =>
    refine hsame ?_ (by simp)
    rw [Block.waiter_of_core (core b), Kernel.departure_waiter]
  | linked half forker running held quiet =>
    exact hsame (quiet.view_of_update Block.waiter_of_core rfl b) fun _ => List.not_mem_nil
  | unwound flight forker running quiet =>
    exact hsame (quiet.view_of_update Block.waiter_of_core rfl b) fun _ => List.not_mem_nil
  | @slept caller _ _ _ _ _ _ _ named found parent waiter reaped exited quiet =>
    exact hcommit caller quiet found (fun _ => rfl) (by simp)
  | @collected caller _ _ _ _ _ _ _ named found parent waiter reaped exited quiet =>
    exact hcommit caller quiet found (fun _ => rfl) (by simp)

structure Told (s : Session) (h : List Event) : Prop where
  waiter : ∀ b, (s.kernel.block b).waiter = true ↔ ∃ caller, .committed b caller ∈ h
  once : ∀ b, (h.filter (·.commits b)).length ≤ 1
  caller : ∀ {b caller}, .committed b caller ∈ h → caller = kernelPid ∨
    ∃ q, forkerOf h b = some q ∧ caller = (s.kernel.block q).pid
  collected : ∀ {b caller pid raw}, .collected b caller pid raw ∈ h → .committed b caller ∈ h

/-- What is collected by a move that is a wait was committed by it. -/
theorem Effect.committed_of_collected {move : Move} {es : List Event} {k' : Kernel}
    (he : s.Effect h move es k') {b : BlockId} {caller pid : Pid} {raw : RawStatus}
    (hc : .collected b caller pid raw ∈ es) : .committed b caller ∈ es := by
  cases he with
  | collected named found parent waiter reaped exited quiet =>
    obtain ⟨rfl, rfl, -⟩ : b = _ ∧ caller = _ ∧ _ := by simpa using hc
    exact List.mem_cons_self
  | _ => simp at hc

/-- What a sleeper collects was committed before. -/
theorem committed_of_wakes {g es : List Event} {k k' : Kernel} (hw : Wakes g k es k')
    {b : BlockId} {caller pid : Pid} {raw : RawStatus}
    (hc : .collected b caller pid raw ∈ es) : .committed b caller ∈ g := by
  induction hw with
  | done => cases hc
  | gone _ _ ih => exact ih hc
  | collected committed _ _ _ _ ih =>
    rcases List.mem_cons.1 hc with he | hc
    · cases he
      exact committed
    · exact ih hc

theorem filter_commits_eq_nil {b : BlockId} {es : List Event} :
    es.filter (·.commits b) = [] ↔ ∀ caller, .committed b caller ∉ es := by
  rw [List.filter_eq_nil_iff]
  constructor
  · exact fun hn caller hc => hn _ hc (beq_self_eq_true b)
  · rintro hn e he hb
    cases e with
    | committed c caller => exact hn caller (beq_iff_eq.1 hb ▸ he)
    | _ => cases hb

/-- A block is committed to once, while it has no waiter. -/
theorem Sound.once_act (hs : s.Sound h) (ht : s.Told h) {move : Move} {es : List Event}
    {k' : Kernel} (he : s.Effect h move es k') (b : BlockId) :
    ((h ++ es).filter (·.commits b)).length ≤ 1 := by
  rw [List.filter_append, List.length_append]
  have hone : (es.filter (·.commits b)).length ≤ 1 := by
    cases he with
    | slept named found parent waiter reaped exited quiet => exact List.length_filter_le ..
    | collected named found parent waiter reaped exited quiet =>
      rw [List.filter_cons, List.filter_cons_of_neg (by simp [Event.commits])]
      split <;> simp
    | left found forker running landed size core =>
      rw [filter_commits_eq_nil.2 (by simp)]
      exact Nat.zero_le 1
    | _ => simp [Event.commits]
  by_cases hc : ∃ caller, .committed b caller ∈ es
  · obtain ⟨caller, hc⟩ := hc
    have hnone : h.filter (·.commits b) = [] := filter_commits_eq_nil.2 fun d hd => by
      have hw := (ht.waiter b).2 ⟨d, hd⟩
      cases hw.symm.trans (hs.commits he hc).waiter
    rw [hnone]
    simpa using hone
  · rw [filter_commits_eq_nil.2 fun caller hm => hc ⟨caller, hm⟩]
    exact ht.once b

theorem Sound.told_step (hs : s.Sound h) (ht : s.Told h) {move : Move}
    (hp : move.permitted s h = true) : (s.step move).2.2.Told (h ++ s.events move) := by
  have hages := hs.ages_step hp
  obtain ⟨acted, told, k, he, hstep⟩ := hs.step hp
  have hmem : ∀ {b caller}, .committed b caller ∈ h ++ s.events move ↔
      .committed b caller ∈ h ∨ .committed b caller ∈ acted := fun {b caller} => by
    rw [he, List.mem_append, List.mem_append]
    exact or_congr_right (or_iff_left (not_committed_of_wakes hstep.wakes))
  have hpid : ∀ {b q}, forkerOf h b = some q →
      ((s.step move).2.2.kernel.block q).pid = (s.kernel.block q).pid := fun hf =>
    hages.pid _ (Nat.lt_trans (hs.kernel.kindred.born hf).1 (hs.forker_lt hf))
  refine ⟨fun b => ?_, fun b => ?_, fun {b caller} hc => ?_, fun {b caller pid raw} hc => ?_⟩
  rotate_left
  · rw [he, ← List.append_assoc, List.filter_append,
      filter_commits_eq_nil.2 fun _ => not_committed_of_wakes hstep.wakes, List.append_nil]
    exact hs.once_act ht hstep.effect b
  rotate_right
  · rw [hstep.wakes.buries.waiter, hs.waiter_act hstep.effect, ht.waiter]
    simp only [hmem, exists_or]
  · rcases hmem.1 hc with hc | hc
    · refine (ht.caller hc).imp_right fun ⟨q, hf, hq⟩ => ?_
      exact ⟨q, forkerOf_append_of_some hf _, hq.trans (hpid hf).symm⟩
    · have hcommits := hs.commits hstep.effect hc
      have hlt := (hs.kernel.placed.own hcommits.found).1
      have hroot : b ≠ Kernel.root := by
        rintro rfl
        cases hs.kernel.ordered.root_parent.symm.trans hcommits.parent
      rcases hs.kernel.kindred.parent b hlt hroot with hpar | ⟨q, hf, hpar⟩
      · exact Or.inl (Option.some.inj (hcommits.parent.symm.trans hpar))
      · refine Or.inr ⟨q, forkerOf_append_of_some hf _, ?_⟩
        exact (Option.some.inj (hcommits.parent.symm.trans hpar)).trans (hpid hf).symm
  · rw [hmem]
    rw [he, List.mem_append, List.mem_append] at hc
    rcases hc with hc | hc | hc
    · exact Or.inl (ht.collected hc)
    · exact Or.inr (hstep.effect.committed_of_collected hc)
    · exact List.mem_append.1 (committed_of_wakes hstep.wakes hc)

/-- With no history no wait is committed. -/
theorem told_nil (hw : ∀ b, (s.kernel.block b).waiter = false) :
    s.Told [] :=
  ⟨fun b => by simp [hw b], fun _ => Nat.zero_le 1, fun hc => (by cases hc), fun hc => (by cases hc)⟩

theorem Sound.told_run (hs : s.Sound h) (ht : s.Told h) {moves : List Move}
    (hl : s.lawful h moves = true) : (s.run moves).Told (s.history h moves) :=
  (run_induction (P := Told) (fun hs hp ht => hs.told_step ht hp) hs hl ht).2

/-! ### Refusals -/

/-- A wait is denied to another than the parent, and to all once there is a waiter. -/
theorem denies_wait {caller pid : Pid} {b : BlockId} {target : Int64} {via : Via}
    {destination : Option RawStatus}
    (hanswer : (s.kernel.wait caller target 0).1 =
      if (s.kernel.block b).parent ≠ some caller then .done (.error (.notChild pid caller))
      else if (s.kernel.block b).waiter then .done (.error (.alreadyWaited pid))
      else if (s.kernel.block b).exited then .done (.ok (pid, (s.kernel.block b).code))
      else .asleep b) (hcan : s.canCall via caller = true) :
    (s.act (.wait caller target 0 via destination)).1.denies = true ↔
      (s.kernel.block b).parent ≠ some caller ∨ (s.kernel.block b).waiter = true := by
  simp only [act, wait, hcan, Bool.not_true, Bool.false_eq_true, if_false]
  generalize s.kernel.wait caller target 0 = out at hanswer
  obtain ⟨outcome, k'⟩ := out
  obtain rfl := hanswer
  by_cases hp : (s.kernel.block b).parent = some caller
  · rw [if_neg (not_not_intro hp)]
    cases (s.kernel.block b).waiter with
    | true => simp [Reply.denies]
    | false => cases (s.kernel.block b).exited <;> simp [Reply.denies, hp]
  · simp [Reply.denies, hp]

/-- A forker that lives is refused as no parent, or because of a waiter, on its first
wait for a child of its own exactly if the child is half-forked or the kernel waits. -/
theorem Sound.denies_iff (hs : s.Sound h) (ht : s.Told h) {b q : BlockId}
    (hf : forkerOf h b = some q) (hq : s.kernel.pids.lookup (s.kernel.block q).pid = some q)
    (he : (s.kernel.block q).exiting = false) (hr : (s.kernel.block b).reaped = false)
    (hfirst : .committed b (s.kernel.block q).pid ∉ h) {target : Int64}
    (hname : s.kernel.targetPid? target = some (s.kernel.block b).pid) {via : Via}
    (hcan : s.canCall via (s.kernel.block q).pid = true) (destination : Option RawStatus) :
    (s.act (.wait (s.kernel.block q).pid target 0 via destination)).1.denies = true ↔
      q ≠ Kernel.root ∧ (b ∈ s.halfForked ∨ .committed b kernelPid ∈ h) := by
  have hl := hs.kernel.lookup_of_forker hf hr
  rw [denies_wait (hs.kernel.wait_answer (s.kernel.block q).pid hname hl hr) hcan]
  have hpid : q ≠ Kernel.root ↔ (s.kernel.block q).pid ≠ kernelPid := by
    refine ⟨hs.kernel.pid_ne_kernelPid hq, fun hne hroot => hne ?_⟩
    rw [hroot]
    exact hs.kernel.ordered.root_pid
  have hparent : (s.kernel.block b).parent ≠ some (s.kernel.block q).pid ↔
      q ≠ Kernel.root ∧ b ∈ s.halfForked := by
    constructor
    · intro hne
      have hp : (s.kernel.block b).parent = some kernelPid := by
        rcases hs.kernel.kindred.parent b (hs.forker_lt hf) (hs.kernel.ne_root_of_forker hf) with
          hp | ⟨q', hf', hp⟩
        · exact hp
        · obtain rfl := Option.some.inj (hf.symm.trans hf')
          exact absurd hp hne
      have hroot : q ≠ Kernel.root := hpid.2 fun hk => hne (hk ▸ hp)
      refine ⟨hroot, Classical.byContradiction fun hm => ?_⟩
      rcases hs.kernel.kindred.moved hf hm hr hp with hq' | hx
      · exact hroot hq'
      · exact Bool.false_ne_true (he.symm.trans hx)
    · rintro ⟨hroot, hm⟩ hp
      rw [(hs.kernel.kindred.half b hm).2.1] at hp
      exact hpid.1 hroot (Option.some.inj hp).symm
  have hwaiter : (s.kernel.block b).waiter = true ↔
      q ≠ Kernel.root ∧ .committed b kernelPid ∈ h := by
    rw [ht.waiter]
    constructor
    · rintro ⟨caller, hc⟩
      rcases ht.caller hc with rfl | ⟨q', hf', rfl⟩
      · exact ⟨hpid.2 fun hk => hfirst (hk ▸ hc), hc⟩
      · obtain rfl := Option.some.inj (hf.symm.trans hf')
        exact absurd hc hfirst
    · exact fun ⟨_, hc⟩ => ⟨_, hc⟩
  rw [hparent, hwaiter, and_or_left]

/-! ### Runs -/

/-- What is collected was forked before the wait for it was committed. -/
theorem Sound.committed_run (hs : s.Sound []) (hw : ∀ b, (s.kernel.block b).waiter = false)
    {moves : List Move} (hl : s.lawful [] moves = true) {b : BlockId} {caller pid : Pid}
    {raw : RawStatus} (hc : .collected b caller pid raw ∈ s.history [] moves) :
    ∃ pre move post q, moves = pre ++ move :: post ∧
      .committed b caller ∈ (s.run pre).events move ∧
      (s.run pre).Commits move b caller ∧ forkerOf (s.history [] pre) b = some q ∧
      (s.run pre).Sound (s.history [] pre) := by
  have hcommit := (hs.told_run (told_nil hw) hl).collected hc
  obtain ⟨pre, move, post, rfl, hm⟩ :=
    (hs.mem_history hl hcommit).resolve_left List.not_mem_nil
  rw [lawful_append hs, Bool.and_eq_true] at hl
  obtain ⟨hpre, hrest⟩ := hl
  have hs' := hs.run hpre
  have hcommits := hs'.commits_step (Bool.and_eq_true_iff.1 hrest).1 hm
  have hlt := (hs'.kernel.placed.own hcommits.found).1
  -- the block has exited by the end of the run, so it was forked
  rw [history_append hs hpre] at hc
  have hfates := hs'.fates_run (hs.fates_run hs.fates_nil hpre) hrest b
  have hsend := hs'.run hrest
  have hreaped := hfates.reaped_of_collected
    (List.mem_filter.2 ⟨hc, show (b == b) = true from beq_self_eq_true b⟩)
  obtain ⟨q, hf⟩ := hsend.kernel.kindred.forked
    (hsend.kernel.ordered.exiting b (hsend.kernel.ordered.exited b hreaped))
  exact ⟨pre, move, post, q, rfl, hm, hcommits, (hs'.forkerOf_run hrest hlt).symm.trans hf, hs'⟩

/-- A wait that returns was committed once, by the forker of its target or by the kernel
after that began to exit, unless it usurped; and a forker's own wait is denied only
while its child is half-forked or after the kernel's. -/
theorem wait_authority {config : Config} {refusal : Option Errno} {moves : List Move}
    (hb : boot config refusal = .ok s) (hl : s.lawful [] moves = true) :
    (∀ {b caller pid raw}, .collected b caller pid raw ∈ s.history [] moves →
      ((s.history [] moves).filter (·.commits b)).length = 1 ∧
      ∃ pre move post q, moves = pre ++ move :: post ∧
        .committed b caller ∈ (s.run pre).events move ∧ (s.run pre).Commits move b caller ∧
        forkerOf (s.history [] pre) b = some q ∧
        ((s.run pre).Authorised (s.history [] pre) b caller ↔
          (s.run pre).usurps q b caller = false)) ∧
    ∀ {b q}, forkerOf (s.history [] moves) b = some q →
      (s.run moves).kernel.attends q = true → ((s.run moves).kernel.block b).reaped = false →
      .committed b ((s.run moves).kernel.block q).pid ∉ s.history [] moves →
      ∀ {target via}, (s.run moves).kernel.targetPid? target =
          some ((s.run moves).kernel.block b).pid →
        (s.run moves).canCall via ((s.run moves).kernel.block q).pid = true → ∀ destination,
        (((s.run moves).step (.wait ((s.run moves).kernel.block q).pid target 0 via
            destination)).1.denies = true ↔
          q ≠ Kernel.root ∧ (b ∈ (s.run moves).halfForked ∨
            .committed b kernelPid ∈ s.history [] moves)) := by
  have hs := (sound_boot hb).1
  have ht := hs.told_run (told_nil (size_boot hb).2) hl
  constructor
  · intro b caller pid raw hc
    obtain ⟨pre, move, post, q, hsplit, hm, hcommits, hf, hs'⟩ :=
      hs.committed_run (size_boot hb).2 hl hc
    refine ⟨Nat.le_antisymm (ht.once b) (List.length_pos_iff.2 fun hnil => ?_), pre, move, post, q,
      hsplit, hm, hcommits, hf, hs'.authorised_iff hcommits hf⟩
    exact filter_commits_eq_nil.1 hnil caller (ht.collected hc)
  · intro b q hf hq hr hfirst target via hname hcan destination
    obtain ⟨hlq, he⟩ := Kernel.attends_iff.1 hq
    exact (hs.run hl).denies_iff ht hf hlq he hr hfirst hname hcan destination

/-- A process waits for one child and then for another. -/
theorem wait_authority_of_forker : ∃ s : Session, ∃ moves : List Move,
    boot { maxProcesses := 8 } none = .ok s ∧ s.lawful [] moves = true ∧
      (∃ pre move post q, moves = pre ++ move :: post ∧
        .committed 2 1 ∈ (s.run pre).events move ∧ (s.run pre).Commits move 2 1 ∧
        forkerOf (s.history [] pre) 2 = some q ∧
        ((s.run pre).Authorised (s.history [] pre) 2 1 ↔ (s.run pre).usurps q 2 1 = false)) ∧
      (((s.run moves).step (.wait ((s.run moves).kernel.block 1).pid 3 0 .context none)).1.denies =
        true ↔ 1 ≠ Kernel.root ∧ (3 ∈ (s.run moves).halfForked ∨
          .committed 3 kernelPid ∈ s.history [] moves)) := by
  let moves : List Move :=
    [.fork 0 .context, .resume none, .resume none, .resume none, .resume none,
      .fork 1 .context, .resume none, .resume none, .resume none, .resume none,
      .fork 1 .context, .resume none, .resume none, .resume none, .resume none,
      .wait 1 2 0 .context none, .exit 2 ⟨.exited, 7⟩]
  obtain ⟨s, hb, hl, hc, hf, hq, hr, hfirst, hname, hcan⟩ : ∃ s : Session,
      boot { maxProcesses := 8 } none = .ok s ∧ s.lawful [] moves = true ∧
        .collected 2 1 2 (ExitStatus.encode ⟨.exited, 7⟩) ∈ s.history [] moves ∧
        forkerOf (s.history [] moves) 3 = some 1 ∧ (s.run moves).kernel.attends 1 = true ∧
        ((s.run moves).kernel.block 3).reaped = false ∧
        .committed 3 ((s.run moves).kernel.block 1).pid ∉ s.history [] moves ∧
        (s.run moves).kernel.targetPid? 3 = some ((s.run moves).kernel.block 3).pid ∧
        (s.run moves).canCall .context ((s.run moves).kernel.block 1).pid = true :=
    ⟨_, rfl, by decide +kernel⟩
  exact ⟨s, moves, hb, hl, ((wait_authority hb hl).1 hc).2,
    (wait_authority hb hl).2 hf hq hr hfirst hname hcan none⟩

/-- The kernel waits for a half-forked child and collects its status, and the process
that forked the child is denied the wait. -/
theorem not_authorised_of_half_forked : ∃ s : Session, ∃ (pre : List Move) (move : Move)
    (mid : List Move), boot { maxProcesses := 8 } none = .ok s ∧
      s.lawful [] (pre ++ move :: mid ++ [.exit 2 ⟨.exited, 7⟩]) = true ∧
      .committed 2 0 ∈ (s.run pre).events move ∧
      .collected 2 0 2 (ExitStatus.encode ⟨.exited, 7⟩) ∈
        s.history [] (pre ++ move :: mid ++ [.exit 2 ⟨.exited, 7⟩]) ∧
      ¬(s.run pre).Authorised (s.history [] pre) 2 0 ∧
      .committed 2 1 ∉ s.history [] (pre ++ move :: mid) ∧
      ((s.run (pre ++ move :: mid)).step (.wait 1 2 0 .context none)).1.denies = true := by
  let pre : List Move :=
    [.fork 0 .context, .resume none, .resume none, .resume none, .resume none,
      .fork 1 .context, .resume none]
  let move : Move := .wait 0 2 0 .context none
  let mid : List Move := [.resume none, .resume none, .resume none]
  obtain ⟨s, hb, hl, hm, hc, hf, hroot, he, hfirst, hdenies⟩ : ∃ s : Session,
      boot { maxProcesses := 8 } none = .ok s ∧
        s.lawful [] (pre ++ move :: mid ++ [.exit 2 ⟨.exited, 7⟩]) = true ∧
        .committed 2 0 ∈ (s.run pre).events move ∧
        .collected 2 0 2 (ExitStatus.encode ⟨.exited, 7⟩) ∈
          s.history [] (pre ++ move :: mid ++ [.exit 2 ⟨.exited, 7⟩]) ∧
        forkerOf (s.history [] pre) 2 = some 1 ∧
        (s.run pre).kernel.pids.lookup 0 = some 0 ∧
        ((s.run pre).kernel.block 1).exiting = false ∧
        .committed 2 1 ∉ s.history [] (pre ++ move :: mid) ∧
        ((s.run (pre ++ move :: mid)).step (.wait 1 2 0 .context none)).1.denies = true :=
    ⟨_, rfl, by decide +kernel⟩
  refine ⟨s, pre, move, mid, hb, hl, hm, hc, ?_, hfirst, hdenies⟩
  rintro ⟨q, hq, hor⟩
  obtain rfl := Option.some.inj (hf.symm.trans hq)
  rcases hor with hl | ⟨-, hx⟩
  · cases hroot.symm.trans hl
  · exact Bool.false_ne_true (he.symm.trans hx)

end Session

end Lifecycle
