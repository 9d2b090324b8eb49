import Lifecycle.Proofs.Session.Arriving

/-! Children and their places. Between moves links, lists of children, parents and pids say
the same, and each list is in the order in which its members have come into it. A process
comes into a list once: a fork links a child that no list has had yet, and an exit hands on
children that the kernel has not had, so whoever leaves a list does not come back. -/

namespace Lifecycle

namespace Kernel

/-- Links, lists of children, parents and pids say the same. -/
structure Agrees (k : Kernel) : Prop where
  nodup : ∀ p, (k.family.childrenOf p).Nodup
  mirror : ∀ c p, c ∈ k.family.childrenOf p ↔ k.family.parentLink? c = some p
  linked : ∀ {c p}, k.family.parentLink? c = some p → ∃ b q, k.pids.lookup c = some b ∧
    k.pids.lookup p = some q ∧ (k.block b).parent = some p
  /-- A list names the blocks that are at its pids. -/
  named : ∀ p, (k.childBlocks p).map (fun c => (k.block c).pid) = k.family.childrenOf p

variable {k : Kernel} {a : Account}

theorem Sound.agrees (h : k.Sound a) : k.Agrees where
  nodup := h.kindred.family.nodup
  mirror c p := (h.kindred.family.mirror c p).symm
  linked hl := by
    obtain ⟨b, q, hb, hq, hp, -⟩ := h.kindred.linked hl
    exact ⟨b, q, hb, hq, hp⟩
  named := h.pids_childBlocks

theorem agrees_of_family (hf : k.family = {}) : k.Agrees where
  nodup p := hf ▸ Family.Coherent.empty.nodup p
  mirror c p := hf ▸ (Family.Coherent.empty.mirror c p).symm
  linked hl := by
    rw [hf] at hl
    cases hl
  named p := by
    rw [childBlocks_of_family hf, hf]
    rfl

/-- A child is half-forked when its fork stops again only if it was, or has just been made. -/
theorem half_of_resume {pending next : Pending} {refusal : Option Errno} {c : BlockId}
    (hn : (k.resume pending refusal).1 = .stopped next) (hc : next.half? = some c) :
    pending.half? = some c ∨ c = k.blocks.size := by
  have hr := k.resumes pending refusal
  generalize k.resume pending refusal = out at hr hn
  cases hr with
  | born made =>
    cases hn
    cases hc
    exact Or.inr (make_ok made).2.1
  | copied space =>
    cases hn
    exact Or.inl hc
  | @linked parent child k' files =>
    rcases k'.linkChild_cases parent child with ⟨error, hk⟩ | hk
    · cases hk.symm.trans hn
    · cases hk.symm.trans hn
      cases hc
  | _ => cases hn

end Kernel

namespace Session

/-- After how many moves a block first was in the list of a process. -/
def joined (s : Session) (moves : List Move) (p : Pid) (c : BlockId) : Nat :=
  (List.range moves.length).findIdx fun n =>
    decide (c ∈ (s.run (moves.take n)).kernel.childBlocks p)

/-- The list of a process is in the order in which its members came into it. -/
structure Seniority (s : Session) (moves : List Move) (p : Pid) : Prop where
  order : ((s.run moves).kernel.childBlocks p).Pairwise fun c d =>
    s.joined moves p c ≤ s.joined moves p d
  /-- Whoever is in it has been since. -/
  since : ∀ c ∈ (s.run moves).kernel.childBlocks p, ∀ n, s.joined moves p c ≤ n →
    c ∈ (s.run (moves.take n)).kernel.childBlocks p

/-- What one more move makes of the lists of children. -/
structure Extends (s : Session) (move : Move) : Prop where
  lists : ∀ p, ∃ kept new, (s.run [move]).kernel.childBlocks p = kept ++ new ∧
    kept.Sublist (s.kernel.childBlocks p) ∧ new.Sublist (s.arrivals move p) ∧
    ∀ c ∈ new, c ∉ s.kernel.childBlocks p
  /-- A pid that was free has no link and no children, even if it is taken now. -/
  fresh : ∀ p, s.kernel.pids.lookup p = none →
    (s.run [move]).kernel.family.parentLink? p = none ∧
      (s.run [move]).kernel.family.childrenOf p = []

/-- The lists of children after a sequence of moves, and what each of these has done to them. -/
structure Kinship (s : Session) (moves : List Move) : Prop where
  agrees : (s.run moves).kernel.Agrees
  seniority : ∀ p, s.Seniority moves p
  grown : ∀ pre move post, moves = pre ++ move :: post → (s.run pre).Extends move

variable {s : Session} {h : List Event} {p : Pid} {c : BlockId} {move : Move}

/-! ### Half-forked children -/

/-- A child that is half-forked after a move was so before, or has been made in it. -/
theorem half_of_act (hc : c ∈ (s.act move).2.halfForked) :
    c ∈ s.halfForked ∨ c = s.kernel.blocks.size := by
  obtain ⟨f, hf, hp⟩ := mem_halfForked.1 hc
  rcases stopped_of_act hf with hf | hstopping
  · exact Or.inl (mem_halfForked.2 ⟨f, hf, hp⟩)
  · cases hstopping with
    | fork => cases hp
    | create => cases hp
    | resume stopped resumed =>
      refine (Kernel.half_of_resume resumed hp).imp_left fun hp => ?_
      exact mem_halfForked.2 ⟨_, stopped ▸ List.mem_cons_self, hp⟩

/-! ### Children that have had their place -/

/-- What is true of a block from the time it comes into the list of a process: it is not
half-forked, and if the list is the kernel's it is a child of the kernel. -/
def Lodged (s : Session) (p : Pid) (c : BlockId) : Prop :=
  s.kernel.live = true → c < s.kernel.blocks.size ∧ c ∉ s.halfForked ∧
    (p = kernelPid → (s.kernel.block c).parent = some kernelPid)

theorem Sound.lodged_of_mem (hs : s.Sound h) (hc : c ∈ s.kernel.childBlocks p) :
    s.Lodged p c := by
  obtain ⟨hl, hlink⟩ := hs.kernel.mem_childBlocks.1 hc
  obtain ⟨b, q, hb, -, hparent, -⟩ := hs.kernel.kindred.linked hlink
  cases hl.symm.trans hb
  refine fun _ => ⟨(hs.kernel.placed.own hl).1, fun hm => ?_, fun hp => hp ▸ hparent⟩
  cases (hs.kernel.kindred.half c hm).2.2.2.symm.trans hlink

/-- A child of the kernel that is linked stays one. -/
theorem Effect.parent_kernel {es : List Event} {k' : Kernel} (he : s.Effect h move es k')
    (hc : c < s.kernel.blocks.size) (hhalf : c ∉ s.halfForked)
    (hp : (s.kernel.block c).parent = some kernelPid) :
    (k'.block c).parent = some kernelPid := by
  cases hm : move.isExit with
  | false =>
    rcases he.parent hm hc with hsame | ⟨hin, -⟩
    · exact hsame.trans hp
    · exact absurd hin hhalf
  | true =>
    cases he with
    | quiet quiet => exact (quiet.parent c).trans hp
    | @left pid status b _ _ found forker running landed size core =>
      rw [Block.parent_of_core (core c)]
      rcases s.kernel.departure_parent b status.encode c with hsame | hkernel
      · exact hsame.trans hp
      · exact hkernel
    | _ => cases hm

/-- It remains true of a block from then on. -/
theorem Sound.lodged_step (hs : s.Sound h) (hp : move.permitted s h = true)
    (hc : s.Lodged p c) : (s.step move).2.2.Lodged p c := by
  obtain ⟨hlt, hhalf, hparent⟩ := hc hs.kernel.placed.live
  obtain ⟨heffect, hsound⟩ := hs.act hp
  have hburies : (s.act move).2.kernel.Buries (s.step move).2.2.kernel :=
    hsound.settle.1.buries
  refine fun _ => ⟨Nat.lt_of_lt_of_le hlt (hs.ages_step hp).size, fun hm => ?_, fun hk => ?_⟩
  · have hframes : (s.step move).2.2.frames = (s.act move).2.frames := frames_settle _
    rw [halfForked, hframes] at hm
    rcases half_of_act hm with hm | hnew
    · exact hhalf hm
    · exact absurd hlt (hnew ▸ Nat.lt_irrefl _)
  · rw [hburies.parent]
    exact heffect.parent_kernel hlt hhalf (hparent hk)

/-- Who arrives in a move is installed, and so is the process that gets him. -/
theorem Sound.lookup_of_arrives (hs : s.Sound h) (hc : c ∈ s.arrivals move p) :
    s.kernel.pids.lookup (s.kernel.block c).pid = some c ∧
      ∃ q, s.kernel.pids.lookup p = some q := by
  cases arrives hc with
  | @linked parent _ _ _ stopped =>
    have hmem : ⟨.forkFiles parent c, _⟩ ∈ s.frames := stopped ▸ List.mem_cons_self
    exact ⟨hs.lookup_of_names (Or.inr (Or.inr ⟨_, hmem, Or.inr rfl⟩)),
      parent, hs.lookup_of_names (Or.inr (Or.inr ⟨_, hmem, Or.inl rfl⟩))⟩
  | handed runs child =>
    exact ⟨(hs.kernel.mem_childBlocks.1 child).1, Kernel.root, hs.kernel.lookup_root⟩

/-- And he has not been in that list before. -/
theorem Sound.not_lodged_of_arrives (hs : s.Sound h) (hc : c ∈ s.arrivals move p) :
    ¬s.Lodged p c := by
  intro hlodged
  obtain ⟨-, hhalf, hparent⟩ := hlodged hs.kernel.placed.live
  cases arrives hc with
  | linked stopped => exact hhalf (mem_halfForked.2 ⟨_, stopped ▸ List.mem_cons_self, rfl⟩)
  | @handed pid _ runs child =>
    -- the process that exits is not the kernel
    obtain ⟨n, hn⟩ := Option.isSome_iff_exists.1 runs
    obtain ⟨b, hb⟩ := hs.ready.contexts hn
    obtain ⟨q, hq⟩ := hb.2.1
    have hl := hs.lookup_of_serves hb
    have hpid : pid ≠ kernelPid := by
      have hne := hs.kernel.pid_ne_kernelPid (hs.kernel.lookup_of_installed hl)
        (hs.kernel.ne_root_of_forker hq)
      rwa [hb.1] at hne
    obtain ⟨hlc, hlink⟩ := hs.kernel.mem_childBlocks.1 child
    obtain ⟨b', q', hb', -, hunder, -⟩ := hs.kernel.kindred.linked hlink
    cases hlc.symm.trans hb'
    exact hpid (Option.some.inj (hunder.symm.trans (hparent rfl)))

/-! ### One move -/

/-- A session on its way: its moves are permitted up to a shutdown, or it has been shut down. -/
structure Course (s : Session) (moves : List Move) : Prop where
  firm : s.Firm
  stage : (∃ h, s.Sound h ∧ s.lawful h (moves.takeWhile (!·.isShutdown)) = true) ∨ s.Ended

theorem run_cons_next (s : Session) (move : Move) (moves : List Move) :
    s.run (move :: moves) = (s.run [move]).run moves :=
  run_append s [move] moves

theorem Firm.next (hs : s.Firm) (move : Move) : (s.run [move]).Firm := by
  rw [Session.run_cons, run_nil]
  cases hf : s.kernel.fault with
  | some fault => exact hs
  | none => exact hs.step hf move

theorem Ended.next (he : s.Ended) (hs : s.Firm) (move : Move) : (s.run [move]).Ended := by
  rw [Session.run_cons, run_nil]
  cases hf : s.kernel.fault with
  | some fault => exact he
  | none => exact he.step hs hf move

namespace Course

variable {moves : List Move}

/-- The next move is permitted, or the session has ended after it. -/
theorem permitted_or_ended (hs : s.Course (move :: moves)) :
    (∃ h, s.Sound h ∧ move.permitted s h = true ∧ (s.run [move]).lawful (h ++ s.events move)
      (moves.takeWhile (!·.isShutdown)) = true) ∨ (s.run [move]).Ended := by
  rcases hs.stage with ⟨h, hsound, hl⟩ | hended
  · rw [hsound.run_cons, run_nil]
    cases hm : move.isShutdown with
    | true =>
      cases move with
      | shutdown =>
        exact Or.inr (ended_shutdown (hs.firm.intact hsound.fault hsound.kernel.placed.live))
      | _ => cases hm
    | false =>
      rw [List.takeWhile_cons_of_pos (by rw [hm]; rfl)] at hl
      obtain ⟨hp, hrest⟩ := Bool.and_eq_true_iff.1 hl
      exact Or.inl ⟨h, hsound, hp, hrest⟩
  · exact Or.inr (hended.next hs.firm move)

theorem next (hs : s.Course (move :: moves)) : (s.run [move]).Course moves := by
  refine ⟨hs.firm.next move, hs.permitted_or_ended.imp_left ?_⟩
  rintro ⟨h, hsound, hp, hrest⟩
  rw [hsound.run_cons, run_nil] at hrest ⊢
  exact ⟨_, hsound.next hp, hrest⟩

/-- In a move some leave a list, and those who arrive come to its end; it has not had them. -/
theorem lists_next (hs : s.Course (move :: moves)) (p : Pid) :
    ∃ kept new, (s.run [move]).kernel.childBlocks p = kept ++ new ∧
      kept.Sublist (s.kernel.childBlocks p) ∧ new.Sublist (s.arrivals move p) ∧
      ∀ c ∈ new, ¬s.Lodged p c := by
  rcases hs.permitted_or_ended with ⟨h, hsound, hp, -⟩ | hended
  · have hacted := (hsound.act hp).sound
    have hstep := hs.firm.appends_step hsound.fault hsound.kernel.placed.live hacted.fault
      hacted.kernel.placed.live p
    obtain ⟨kept, new, he, hkept, hnew⟩ := List.sublist_append_iff.1 hstep
    rw [hsound.run_cons]
    exact ⟨kept, new, he, hkept, hnew, fun c hc => hsound.not_lodged_of_arrives (hnew.subset hc)⟩
  · exact ⟨[], [], Kernel.childBlocks_of_family hended.family p, List.nil_sublist _,
      List.nil_sublist _, fun c hc => absurd hc List.not_mem_nil⟩

theorem lodged_of_mem (hs : s.Course moves) (hc : c ∈ s.kernel.childBlocks p) :
    s.Lodged p c := by
  rcases hs.stage with ⟨h, hsound, -⟩ | hended
  · exact hsound.lodged_of_mem hc
  · rw [Kernel.childBlocks_of_family hended.family] at hc
    cases hc

theorem lodged_next (hs : s.Course (move :: moves)) (hc : s.Lodged p c) :
    (s.run [move]).Lodged p c := by
  rcases hs.permitted_or_ended with ⟨h, hsound, hp, -⟩ | hended
  · rw [hsound.run_cons]
    exact hsound.lodged_step hp hc
  · intro hl
    cases hended.live.symm.trans hl

theorem agrees (hs : s.Course moves) : s.kernel.Agrees := by
  rcases hs.stage with ⟨h, hsound, -⟩ | hended
  · exact hsound.kernel.agrees
  · exact Kernel.agrees_of_family hended.family

/-- A pid that is free before a move is no child's and no parent's after it: nobody that is in a
list then has it, and nobody arrives at it. -/
theorem fresh_next (hs : s.Course (move :: moves)) (hp : s.kernel.pids.lookup p = none) :
    (s.run [move]).kernel.family.parentLink? p = none ∧
      (s.run [move]).kernel.family.childrenOf p = [] := by
  rcases hs.permitted_or_ended with ⟨h, hsound, hm, -⟩ | hended
  · have hages := hsound.ages_step hm
    have hnext := hsound.next hm
    have hrun : s.run [move] = (s.step move).2.2 := hsound.run_cons move []
    have hfound : ∀ {q c}, c ∈ (s.step move).2.2.kernel.childBlocks q →
        s.kernel.pids.lookup (s.kernel.block c).pid = some c ∧
          ∃ b, s.kernel.pids.lookup q = some b := fun {q c} hc => by
      obtain ⟨kept, new, he, hkept, hnew, -⟩ := hs.lists_next q
      rw [hrun] at he
      rw [he] at hc
      rcases List.mem_append.1 hc with hc | hc
      · obtain ⟨hl, hlink⟩ := hsound.kernel.mem_childBlocks.1 (hkept.subset hc)
        obtain ⟨-, b, -, hb, -⟩ := hsound.kernel.kindred.linked hlink
        exact ⟨hl, b, hb⟩
      · exact hsound.lookup_of_arrives (hnew.subset hc)
    rw [hrun]
    constructor
    · refine Option.eq_none_iff_forall_ne_some.2 fun q hq => ?_
      obtain ⟨b, -, hb, -⟩ := hnext.kernel.kindred.linked hq
      have hpid := (hnext.kernel.placed.own hb).2
      have hmem : b ∈ (s.step move).2.2.kernel.childBlocks q :=
        hnext.kernel.mem_childBlocks.2 ⟨hnext.kernel.lookup_of_installed hb, by rwa [hpid]⟩
      have hl := (hfound hmem).1
      rw [← hages.pid b (hsound.kernel.placed.own hl).1, hpid, hp] at hl
      cases hl
    · rw [← hnext.kernel.pids_childBlocks, List.map_eq_nil_iff, List.eq_nil_iff_forall_not_mem]
      intro c hc
      obtain ⟨-, b, hb⟩ := hfound hc
      cases hp.symm.trans hb
  · rw [hended.family]
    exact ⟨rfl, rfl⟩

theorem extends_next (hs : s.Course (move :: moves)) : s.Extends move where
  lists p := by
    obtain ⟨kept, new, he, hkept, hnew, hl⟩ := hs.lists_next p
    exact ⟨kept, new, he, hkept, hnew, fun c hc hm => hl c hc (hs.lodged_of_mem hm)⟩
  fresh p := hs.fresh_next

/-! ### Runs -/

theorem run {more : List Move} (hs : s.Course (moves ++ more)) : (s.run moves).Course more := by
  induction moves generalizing s with
  | nil => exact hs
  | cons move moves ih =>
    rw [run_cons_next]
    exact ih hs.next

theorem lodged_run {more : List Move} (hs : s.Course (moves ++ more)) (hc : s.Lodged p c) :
    (s.run moves).Lodged p c := by
  induction moves generalizing s with
  | nil => exact hc
  | cons move moves ih =>
    rw [run_cons_next]
    exact ih hs.next (hs.lodged_next hc)

/-- In any moves some leave a list, and those who come into it stand after those who stay; the
list has not had them. -/
theorem lists_run (hs : s.Course moves) (p : Pid) :
    ∃ kept new, (s.run moves).kernel.childBlocks p = kept ++ new ∧
      kept.Sublist (s.kernel.childBlocks p) ∧ ∀ c ∈ new, ¬s.Lodged p c := by
  induction moves generalizing s with
  | nil => exact ⟨_, [], (List.append_nil _).symm, .refl _, fun c hc => absurd hc List.not_mem_nil⟩
  | cons move moves ih =>
    obtain ⟨kept, new, he, hkept, -, hnew⟩ := hs.lists_next p
    obtain ⟨stay, come, he', hstay, hcome⟩ := ih hs.next
    rw [he] at hstay
    obtain ⟨old, young, rfl, hold, hyoung⟩ := List.sublist_append_iff.1 hstay
    refine ⟨old, young ++ come, ?_, hold.trans hkept, fun c hc hl => ?_⟩
    · rw [run_cons_next, he', List.append_assoc]
    · rcases List.mem_append.1 hc with hc | hc
      · exact hnew c (hyoung.subset hc) hl
      · exact hcome c hc (hs.lodged_next hl)

/-- Whoever was in a list and is in it later was there all the time. -/
theorem mem_between {more : List Move} (hs : s.Course (moves ++ more))
    (hc : c ∈ s.kernel.childBlocks p) (hc' : c ∈ (s.run (moves ++ more)).kernel.childBlocks p) :
    c ∈ (s.run moves).kernel.childBlocks p := by
  obtain ⟨kept, new, he, hkept, hnew⟩ := hs.run.lists_run p
  rw [run_append, he] at hc'
  rcases List.mem_append.1 hc' with hc' | hc'
  · exact hkept.subset hc'
  · exact absurd (hs.lodged_run (hs.lodged_of_mem hc)) (hnew c hc')

end Course

/-! ### The order of a list -/

theorem joined_le (s : Session) (moves : List Move) (p : Pid) (c : BlockId) :
    s.joined moves p c ≤ moves.length := by
  have hle : s.joined moves p c ≤ (List.range moves.length).length := List.findIdx_le_length
  rwa [List.length_range] at hle

theorem joined_le_of_mem {moves : List Move} {n : Nat}
    (hc : c ∈ (s.run (moves.take n)).kernel.childBlocks p) : s.joined moves p c ≤ n := by
  by_cases hn : n < moves.length
  · refine Nat.le_of_not_lt fun hlt => ?_
    have hnot := List.not_of_lt_findIdx hlt
    rw [List.getElem_range, decide_eq_false_iff_not] at hnot
    exact hnot hc
  · exact Nat.le_trans (joined_le s moves p c) (Nat.le_of_not_lt hn)

theorem mem_of_joined {moves : List Move} (hn : s.joined moves p c < moves.length) :
    c ∈ (s.run (moves.take (s.joined moves p c))).kernel.childBlocks p := by
  have hlt : s.joined moves p c < (List.range moves.length).length := by rwa [List.length_range]
  unfold joined at hlt
  have hmem := List.findIdx_getElem (w := hlt)
  rw [List.getElem_range, decide_eq_true_iff] at hmem
  exact hmem

theorem Course.seniority {moves : List Move} (hs : s.Course moves) (p : Pid) :
    s.Seniority moves p where
  order := by
    rw [List.pairwise_iff_forall_sublist]
    intro c d hcd
    by_cases hn : s.joined moves p d < moves.length
    · -- the younger was there by then, so what stands before it has stayed since
      have hd := mem_of_joined hn
      generalize s.joined moves p d = n at hn hd ⊢
      rw [← List.take_append_drop n moves] at hs
      obtain ⟨kept, new, he, hkept, hnew⟩ := hs.run.lists_run p
      rw [← List.take_append_drop n moves, run_append, he] at hcd
      obtain ⟨old, young, hsplit, hold, hyoung⟩ := List.sublist_append_iff.1 hcd
      have hdyoung : d ∉ young := fun hm =>
        hnew d (hyoung.subset hm) (hs.run.lodged_of_mem hd)
      have hcold : c ∈ old := by
        rcases old with _ | ⟨x, old⟩
        · rw [List.nil_append] at hsplit
          exact absurd (hsplit ▸ by simp) hdyoung
        · rw [List.cons_append] at hsplit
          exact (List.cons.inj hsplit).1 ▸ List.mem_cons_self
      exact joined_le_of_mem (hkept.subset (hold.subset hcold))
    · exact Nat.le_trans (joined_le s moves p c) (Nat.le_of_not_lt hn)
  since c hc n hn := by
    by_cases hlt : n < moves.length
    · have hm := mem_of_joined (Nat.lt_of_le_of_lt hn hlt)
      generalize s.joined moves p c = m at hn hm
      have hfirst : moves.take n = moves.take m ++ (moves.take n).drop m := by
        have hsplit := List.take_append_drop m (moves.take n)
        rw [List.take_take, Nat.min_eq_left hn] at hsplit
        exact hsplit.symm
      have hmoves : moves = moves.take m ++ ((moves.take n).drop m ++ moves.drop n) := by
        rw [← List.append_assoc, ← hfirst, List.take_append_drop]
      rw [hmoves] at hs
      rw [hmoves, run_append] at hc
      rw [hfirst, run_append]
      exact hs.run.mem_between hm hc
    · rwa [List.take_of_length_le (Nat.le_of_not_lt hlt)]

/-! ### From boot on -/

theorem course_boot {config : Config} {refusal : Option Errno} {moves : List Move}
    (hb : boot config refusal = .ok s)
    (hl : s.lawful [] (moves.takeWhile (!·.isShutdown)) = true) : s.Course moves :=
  ⟨(firm_boot hb).1, Or.inl ⟨[], (sound_boot hb).1, hl⟩⟩

/-- In any run whose moves are permitted up to a shutdown, links, lists, parents and pids agree,
and each list is in the order in which its members came: by a fork that linked them, or by an
exit that handed them on in the order they had. -/
theorem links_agree {config : Config} {refusal : Option Errno} {moves : List Move}
    (hb : boot config refusal = .ok s)
    (hl : s.lawful [] (moves.takeWhile (!·.isShutdown)) = true) :
    s.Kinship moves := by
  have hs := course_boot hb hl
  refine ⟨?_, hs.seniority, ?_⟩
  · have hend : s.Course (moves ++ []) := by rwa [List.append_nil]
    exact hend.run.agrees
  · rintro pre move post rfl
    exact hs.run.extends_next

/-- The children of a process that exits come after the kernel's own, in their order, and then
the child of a later fork, at the pid that has become free. The table is shut down while
another fork is stopped. -/
theorem links_agree_after_exit : ∃ s : Session, ∃ moves later : List Move,
    boot { maxProcesses := 8 } none = .ok s ∧
      s.lawful [] (moves.takeWhile (!·.isShutdown)) = true ∧
      s.lawful [] ((moves ++ later).takeWhile (!·.isShutdown)) = true ∧
      (s.run moves).kernel.childBlocks kernelPid = [4, 2, 3, 6] ∧
      (s.run moves).kernel.family.childrenOf kernelPid = [4, 2, 3, 1] ∧
      [4, 2, 3, 6].map (s.joined moves kernelPid) = [19, 21, 21, 29] ∧
      (s.run (moves ++ later)).kernel.family.childrenOf kernelPid = [] ∧
      s.Kinship moves ∧ s.Kinship (moves ++ later) := by
  let moves : List Move :=
    [.fork 0 .context, .resume none, .resume none, .resume none, .resume none,
      .fork 1 .context, .resume none, .resume none, .resume none, .resume none,
      .fork 1 .context, .resume none, .resume none, .resume none, .resume none,
      .fork 0 .context, .resume none, .resume none, .resume none, .resume none,
      .exit 1 ⟨.exited, 0⟩,
      .fork 2 .context, .resume none, .resume none, .resume (some .enomem),
      .fork 0 .context, .resume none, .resume none, .resume none, .resume none]
  let later : List Move :=
    [.fork 0 .context, .resume none, .resume none, .shutdown, .resume none, .overRelease 0]
  obtain ⟨s, hb, hl, hl', hblocks, hpids, hjoined, hnone⟩ : ∃ s : Session,
      boot { maxProcesses := 8 } none = .ok s ∧
        s.lawful [] (moves.takeWhile (!·.isShutdown)) = true ∧
        s.lawful [] ((moves ++ later).takeWhile (!·.isShutdown)) = true ∧
        (s.run moves).kernel.childBlocks kernelPid = [4, 2, 3, 6] ∧
        (s.run moves).kernel.family.childrenOf kernelPid = [4, 2, 3, 1] ∧
        [4, 2, 3, 6].map (s.joined moves kernelPid) = [19, 21, 21, 29] ∧
        (s.run (moves ++ later)).kernel.family.childrenOf kernelPid = [] :=
    ⟨_, rfl, by decide +kernel⟩
  exact ⟨s, moves, later, hb, hl, hl', hblocks, hpids, hjoined, hnone, links_agree hb hl,
    links_agree hb hl'⟩

end Session

end Lifecycle
