import Lifecycle.Proofs.Session.Performing
import Lifecycle.Proofs.Session.Running

/-! The tree of processes. A block that is not reaped has a parent that is installed,
has not begun to exit and is the kernel or its own forker, as long as no block
with children vanishes but by an exit; and when one does, it is not so. -/

namespace Lifecycle

namespace Kernel

/-- Whether a block can have children: it is installed and has not begun to exit. -/
def attends (k : Kernel) (b : BlockId) : Bool :=
  k.pids.lookup (k.block b).pid == some b && !(k.block b).exiting

theorem attends_iff {k : Kernel} {b : BlockId} : k.attends b = true ↔
    k.pids.lookup (k.block b).pid = some b ∧ (k.block b).exiting = false := by
  simp only [attends, Bool.and_eq_true, beq_iff_eq, Bool.not_eq_true']

/-- Following parents from a pid comes to the kernel. -/
inductive Descends (k : Kernel) : Pid → Prop
  | kernel : Descends k kernelPid
  | child {b p parent} (found : k.pids.lookup p = some b)
      (linked : (k.block b).parent = some parent) (rest : Descends k parent) : Descends k p

variable {k k' : Kernel} {a a' : Account}

theorem Sound.attends_root (h : k.Sound a) : k.attends root = true := by
  rw [attends_iff, h.ordered.root_pid]
  exact ⟨h.lookup_root, h.exiting_root⟩

/-- A block whose references are as they were is still installed. -/
theorem Sound.attends_of_account (h : k.Sound a) (h' : k'.Sound a') {b : BlockId}
    (hb : k.attends b = true) (hk : k.Ages k') (he : (k'.block b).exiting = false)
    (hg : a'.given b = a.given b) (ho : a'.owed b = a.owed b) : k'.attends b = true := by
  obtain ⟨hl, hx⟩ := attends_iff.1 hb
  have hlt := (h.placed.own hl).1
  have hlt' := Nat.lt_of_lt_of_le hlt hk.size
  refine attends_iff.2 ⟨h'.counted.installed b hlt' ?_, he⟩
  have hcount := h.counted.count b hlt
  rw [h.reaped_of_not_exiting hx] at hcount
  rw [h'.counted.count b hlt', h'.reaped_of_not_exiting he, hg, ho, ← hcount]
  exact h.counted.counted hl

end Kernel

/-- Whether a move is an exit. -/
def Move.isExit : Move → Bool
  | .exit _ _ => true
  | _ => false

namespace Session

/-- Whether a move makes a block vanish that still has a child, and is not its exit. -/
def strands (s : Session) (move : Move) : Bool :=
  let k := s.kernel
  let k' := (s.step move).2.2.kernel
  !move.isExit && (List.range k.blocks.size).any fun c =>
    !(k'.block c).reaped && (List.range k.blocks.size).any fun q =>
      (k.block c).parent == some (k.block q).pid && k.attends q && !k'.attends q

/-- Whether no move of a run does. -/
def strandless (s : Session) : List Move → Bool
  | [] => true
  | move :: moves => !s.strands move && (s.step move).2.2.strandless moves

/-- The parent of a block is there, has not begun to exit and is its own. -/
def Tended (s : Session) (h : List Event) (b : BlockId) : Prop :=
  ∃ q, (s.kernel.block b).parent = some (s.kernel.block q).pid ∧ s.kernel.attends q = true ∧
    (q = Kernel.root ∨ forkerOf h b = some q)

structure Tree (s : Session) (h : List Event) : Prop where
  tended : ∀ {p b}, s.kernel.pids.lookup p = some b → b ≠ Kernel.root →
    (s.kernel.block b).state ≠ .reaped → s.Tended h b
  descends : ∀ {p b}, s.kernel.pids.lookup p = some b → (s.kernel.block b).state ≠ .reaped →
    s.kernel.Descends p

variable {s : Session} {h : List Event}

theorem strands_iff {move : Move} : s.strands move = true ↔ move.isExit = false ∧
    ∃ c < s.kernel.blocks.size, ((s.step move).2.2.kernel.block c).reaped = false ∧
      ∃ q < s.kernel.blocks.size, (s.kernel.block c).parent = some (s.kernel.block q).pid ∧
        s.kernel.attends q = true ∧ (s.step move).2.2.kernel.attends q = false := by
  simp only [strands, Bool.and_eq_true, Bool.not_eq_true', List.any_eq_true, List.mem_range,
    beq_iff_eq, and_assoc]

/-! ### Descent -/

/-- Parents are older than their children, so following them comes to an end. -/
theorem Sound.descends (hs : s.Sound h) (ht : ∀ {p b}, s.kernel.pids.lookup p = some b →
    b ≠ Kernel.root → (s.kernel.block b).state ≠ .reaped → s.Tended h b) {p : Pid} {b : BlockId}
    (hl : s.kernel.pids.lookup p = some b) (hr : (s.kernel.block b).state ≠ .reaped) :
    s.kernel.Descends p := by
  induction b using Nat.strongRecOn generalizing p with
  | ind b ih =>
    by_cases hroot : b = Kernel.root
    · have hp := (hs.kernel.placed.own hl).2
      rw [hroot, hs.kernel.ordered.root_pid] at hp
      exact hp ▸ .kernel
    · obtain ⟨q, hpar, hq, hor⟩ := ht hl hroot hr
      refine .child hl hpar ?_
      rcases hor with rfl | hf
      · rw [hs.kernel.ordered.root_pid]
        exact .kernel
      · obtain ⟨hlq, hx⟩ := Kernel.attends_iff.1 hq
        exact ih q (hs.kernel.kindred.born hf).1 hlq
          ((Block.state_ne_reaped_iff _).2 (hs.kernel.reaped_of_not_exiting hx))

/-! ### Parents -/

theorem Effect.parent_new {move : Move} {es : List Event} {k' : Kernel}
    (he : s.Effect h move es k') {c : BlockId} (hc : s.kernel.blocks.size ≤ c) :
    (k'.block c).parent = some kernelPid := by
  have hold : ∀ {m : Kernel}, m.blocks.size = s.kernel.blocks.size →
      (m.block c).parent = some kernelPid := fun hsize => by
    rw [Kernel.block_of_size_le (hsize ▸ hc)]
    rfl
  have hnew : ∀ {k₁ : Kernel} {pid name task},
      k₁.blocks = s.kernel.blocks.add (.fresh pid name task) →
      (k₁.block c).parent = some kernelPid := fun {k₁ pid name task} hb => by
    rw [Kernel.block_of_add hb]
    split
    · rfl
    · exact hold (m := s.kernel) rfl
  cases he with
  | quiet quiet => exact hold quiet.size
  | surrendered free quiet => exact hold quiet.size
  | made blocks quiet => exact (quiet.parent c).trans (hnew blocks)
  | born blocks => exact hnew blocks
  | left found forker running landed size core => exact hold size
  | linked half forker running held quiet => exact hold (quiet.size.trans (Kernel.size_update ..))
  | unwound flight forker running quiet => exact hold (quiet.size.trans (Kernel.size_update ..))
  | slept named found parent waiter reaped exited quiet =>
    exact hold (quiet.size.trans (Kernel.size_update ..))
  | collected named found parent waiter reaped exited quiet =>
    exact hold (quiet.size.trans (Kernel.size_update ..))

/-- A parent changes when the child is linked, and by an exit. -/
theorem Effect.parent {move : Move} {es : List Event} {k' : Kernel}
    (he : s.Effect h move es k') (hm : move.isExit = false) {c : BlockId}
    (hc : c < s.kernel.blocks.size) : (k'.block c).parent = (s.kernel.block c).parent ∨
      c ∈ s.halfForked ∧ ∃ q, forkerOf h c = some q ∧ k'.attends q = true := by
  have hadd : ∀ {k₁ : Kernel} {block : Block}, k₁.blocks = s.kernel.blocks.add block →
      (k₁.block c).parent = (s.kernel.block c).parent := fun hb => by
    rw [Kernel.block_of_add_of_lt hb hc]
  cases he with
  | quiet quiet => exact Or.inl (quiet.parent c)
  | surrendered free quiet => exact Or.inl (quiet.parent c)
  | made blocks quiet => exact Or.inl ((quiet.parent c).trans (hadd blocks))
  | born blocks => exact Or.inl (hadd blocks)
  | left found forker running landed size core => cases hm
  | @linked _ parent child _ half forker running held quiet =>
    by_cases hcc : c = child
    · subst hcc
      refine Or.inr ⟨half, parent, forker, Kernel.attends_iff.2 ⟨held, ?_⟩⟩
      rw [quiet.exiting, (Kernel.adopt_frame ..).2.2.1]
      exact running
    · refine Or.inl ?_
      rw [quiet.parent, Kernel.block_update_of_ne hcc]
  | unwound flight forker running quiet =>
    exact Or.inl (quiet.view_of_update Block.parent_of_core rfl c)
  | slept named found parent waiter reaped exited quiet =>
    exact Or.inl (quiet.view_of_update Block.parent_of_core rfl c)
  | collected named found parent waiter reaped exited quiet =>
    exact Or.inl (quiet.view_of_update Block.parent_of_core rfl c)

/-- A process begins to exit by its exit, or when its fork fails. -/
theorem Effect.exiting {move : Move} {es : List Event} {k' : Kernel}
    (he : s.Effect h move es k') (hm : move.isExit = false) {b : BlockId}
    (hb : b < s.kernel.blocks.size) : (k'.block b).exiting = (s.kernel.block b).exiting ∨
      b ∈ s.inFlight ∧ ∃ refusal, move = .resume refusal := by
  have hkept : s.kernel.Persists k' (fun _ => False) →
      (k'.block b).exiting = (s.kernel.block b).exiting := fun hp => hp.exiting b hb id
  cases he with
  | quiet quiet => exact Or.inl (quiet.exiting b)
  | surrendered free quiet => exact Or.inl (quiet.exiting b)
  | @made _ _ _ _ _ k blocks quiet =>
    have hadd : (k.block b).exiting = (s.kernel.block b).exiting :=
      (Kernel.Persists.of_add blocks).exiting b hb id
    exact Or.inl ((quiet.exiting b).trans hadd)
  | born blocks => exact Or.inl (hkept (.of_add blocks))
  | left found forker running landed size core => cases hm
  | linked half forker running held quiet =>
    exact Or.inl (hkept (.of_update_exiting quiet rfl rfl))
  | @unwound refusal parent child _ flight forker running quiet =>
    by_cases hbc : b = child
    · exact Or.inr ⟨hbc ▸ flight, refusal, rfl⟩
    · exact Or.inl ((Kernel.Persists.of_update quiet rfl).exiting b hb hbc)
  | slept named found parent waiter reaped exited quiet =>
    exact Or.inl (hkept (.of_update_exiting quiet rfl rfl))
  | collected named found parent waiter reaped exited quiet =>
    exact Or.inl (hkept (.of_update_exiting quiet rfl rfl))

/-- A child that an exit leaves unreaped and under another than the kernel is none of
the process that exits. -/
theorem Sound.parent_exit (hs : s.Sound h) {pid : Pid} {status : ExitStatus} {es : List Event}
    {k' : Kernel} (he : s.Effect h (.exit pid status) es k') {c q : BlockId} {p : Pid}
    (hf : forkerOf h c = some q) (hr : (k'.block c).reaped = false)
    (hp : (k'.block c).parent = some p) (hk : p ≠ kernelPid) :
    (s.kernel.block c).parent = some p ∧
      (s.kernel.pids.lookup p = some q → (k'.block q).exiting = (s.kernel.block q).exiting) := by
  have hlt := hs.forker_lt hf
  have hr₀ := (hs.ages_act he).unreaped hlt hr
  cases he with
  | quiet quiet => exact ⟨(quiet.parent c).symm.trans hp, fun _ => quiet.exiting q⟩
  | @left _ _ b _ _ found forker running landed size core =>
    have hpid := (hs.kernel.placed.own found).2
    rw [Block.reaped_of_core (core c)] at hr
    rw [Block.parent_of_core (core c)] at hp
    rw [Block.exiting_of_core (core q)]
    have hd := s.kernel.becomes b status.encode c
    generalize s.kernel.departure b status.encode c = y at hd hr hp
    cases hd with
    | departed self =>
      -- the child is the one that exits, and its forker is older
      subst self
      have hqc : q ≠ c := Nat.ne_of_lt (hs.kernel.kindred.born hf).1
      exact ⟨hp, fun _ => Kernel.departure_exiting_of_ne hqc ..⟩
    | reaped => cases hr
    | adopted => exact absurd (Option.some.inj hp).symm hk
    | kept other apart =>
      refine ⟨hp, fun hq => Kernel.departure_exiting_of_ne ?_ ..⟩
      rintro rfl
      have hhalf : c ∉ s.halfForked := fun hm => by
        rw [(hs.kernel.kindred.half c hm).2.1] at hp
        exact hk (Option.some.inj hp).symm
      have hl := hs.kernel.kindred.kin hf hhalf List.not_mem_nil hr₀ hp (Or.inr hq)
      rw [← (hs.kernel.placed.own hq).2] at hl
      exact apart (hs.kernel.mem_childBlocks.2 ⟨hs.kernel.lookup_of_forker hf hr₀, hl⟩)

/-! ### What attends goes on attending -/

theorem foldl_wakeOne (ws : List ParkedWait) (out : List Woken) (s : Session) :
    ∃ k', (ws.foldl wakeOne (out, s)).2 = { s with kernel := k' } := by
  induction ws generalizing out s with
  | nil => exact ⟨s.kernel, rfl⟩
  | cons w ws ih =>
    rw [List.foldl_cons, wakeOne]
    exact ih _ { s with kernel := _ }

/-- Waking changes the table and takes the waits that are due. -/
theorem settle_eq (s : Session) : ∃ k', s.settle.2 =
    { s with kernel := k', parked := s.parked.filter (!isDue s.kernel ·) } := by
  obtain ⟨k', hk⟩ := foldl_wakeOne (s.parked.filter (isDue s.kernel)) []
    { s with parked := s.parked.filter (!isDue s.kernel ·) }
  exact ⟨k', hk⟩

/-- No wait on a running process is due. -/
theorem sleepers_filter {b : BlockId} (hb : (s.kernel.block b).state = .running) :
    sleepers { s with parked := s.parked.filter (!isDue s.kernel ·) } b = s.sleepers b := by
  unfold sleepers
  rw [List.countP_filter]
  refine List.countP_congr fun w _ => ?_
  by_cases hw : w.block = b
  · simp [isDue, hw, hb]
  · simp [hw]

theorem Sound.attends_settle (hs : s.Sound h) {b : BlockId} (hb : s.kernel.attends b = true) :
    s.settle.2.kernel.attends b = true := by
  obtain ⟨hwakes, hsound, -⟩ := hs.settle
  have hburies := hwakes.buries
  obtain ⟨hl, he⟩ := Kernel.attends_iff.1 hb
  have hrunning : (s.kernel.block b).state = .running :=
    (Block.state_eq_running_iff _).2
      ⟨hs.kernel.reaped_of_not_exiting he, hs.kernel.exited_of_not_exiting he⟩
  have hk := hsound.kernel
  rw [account_append_plain _ _ hwakes.plain] at hk
  refine hs.kernel.attends_of_account hk hb hburies.ages ((hburies.exiting b).trans he) rfl ?_
  obtain ⟨k', hsettle⟩ := settle_eq s
  rw [hsettle]
  change s.refs b + sleepers { s with parked := s.parked.filter (!isDue s.kernel ·) } b +
    s.forks b = s.refs b + s.sleepers b + s.forks b
  rw [sleepers_filter hrunning]

theorem Effect.plain_of_exit {pid : Pid} {status : ExitStatus} {es : List Event} {k' : Kernel}
    (he : s.Effect h (.exit pid status) es k') : ∀ e ∈ es, e.plain = true := by
  cases he with
  | quiet quiet => exact fun e he => absurd he List.not_mem_nil
  | left found forker running landed size core => exact plain_of_left

theorem exit_frame (s : Session) (pid : Pid) (status : ExitStatus) :
    (s.act (.exit pid status)).2.slots = s.slots ∧
      (s.act (.exit pid status)).2.parked = s.parked ∧
      (s.act (.exit pid status)).2.frames = s.frames := by
  rcases s.exit_eq pid status with hsame | ⟨-, hleft⟩
  · rw [hsame]
    exact ⟨rfl, rfl, rfl⟩
  · rw [hleft]
    exact ⟨rfl, rfl, rfl⟩

/-- A process attends after the exit of another. -/
theorem Sound.attends_exit (hs : s.Sound h) {pid : Pid} {status : ExitStatus} {b : BlockId}
    (hb : s.kernel.attends b = true)
    (he : ((s.act (.exit pid status)).2.kernel.block b).exiting = (s.kernel.block b).exiting) :
    (s.act (.exit pid status)).2.kernel.attends b = true := by
  obtain ⟨heffect, hsound⟩ : s.Acts h (.exit pid status) _ := hs.act rfl
  obtain ⟨hslots, hparked, hframes⟩ := exit_frame s pid status
  have hk := hsound.kernel
  rw [account_append_plain _ _ heffect.plain_of_exit] at hk
  refine hs.kernel.attends_of_account hk hb (hs.ages_act heffect)
    (he.trans (Kernel.attends_iff.1 hb).2) rfl ?_
  change refs _ b + sleepers _ b + forks _ b = s.refs b + s.sleepers b + s.forks b
  rw [refs, sleepers, forks, hslots, hparked, hframes]
  rfl

/-! ### Steps -/

/-- A child with a parent other than the kernel in a step is that of its forker. -/
theorem Tree.attends_forker (ht : s.Tree h) (hs : s.Sound h) {c q : BlockId}
    (hf : forkerOf h c = some q) (hr : (s.kernel.block c).reaped = false)
    (hp : (s.kernel.block c).parent = some (s.kernel.block q).pid)
    (hk : (s.kernel.block q).pid ≠ kernelPid) : s.kernel.attends q = true := by
  obtain ⟨q', hp', hq', hor⟩ := ht.tended (hs.kernel.lookup_of_forker hf hr)
    (hs.kernel.ne_root_of_forker hf) ((Block.state_ne_reaped_iff _).2 hr)
  rcases hor with rfl | hf'
  · rw [hp, hs.kernel.ordered.root_pid] at hp'
    exact absurd (Option.some.inj hp') hk
  · rw [hf] at hf'
    exact Option.some.inj hf' ▸ hq'

/-- A child of a process that attends, other than the kernel, was forked by it. -/
theorem Tree.forker_eq (ht : s.Tree h) (hs : s.Sound h) {c q : BlockId}
    (hc : c < s.kernel.blocks.size) (hr : (s.kernel.block c).reaped = false)
    (hp : (s.kernel.block c).parent = some (s.kernel.block q).pid)
    (hq : s.kernel.attends q = true) (hroot : q ≠ Kernel.root) : forkerOf h c = some q := by
  have hlq := (Kernel.attends_iff.1 hq).1
  have hcroot : c ≠ Kernel.root := by
    rintro rfl
    rw [hs.kernel.ordered.root_parent] at hp
    cases hp
  obtain ⟨q', hf⟩ : ∃ q', forkerOf h c = some q' := by
    rcases hs.kernel.kindred.parent c hc hcroot with hp' | ⟨q', hf, -⟩
    · rw [hp'] at hp
      exact absurd (Option.some.inj hp).symm (hs.kernel.pid_ne_kernelPid hlq hroot)
    · exact ⟨q', hf⟩
  obtain ⟨q₀, hp₀, hq₀, hor⟩ := ht.tended (hs.kernel.lookup_of_forker hf hr) hcroot
    ((Block.state_ne_reaped_iff _).2 hr)
  have hsame : q = q₀ := Kernel.Sound.eq_of_pid hlq (Kernel.attends_iff.1 hq₀).1
    (Option.some.inj (hp.symm.trans hp₀))
  subst hsame
  exact hor.resolve_left hroot

theorem Sound.tree_step (hs : s.Sound h) (ht : s.Tree h) {move : Move}
    (hp : move.permitted s h = true) (hn : s.strands move = false) :
    (s.step move).2.2.Tree (h ++ s.events move) := by
  obtain ⟨heffect, hsound⟩ := hs.act hp
  obtain ⟨hwakes, hsettled, -⟩ := hsound.settle
  have hnext := hs.next hp
  have hburies : (s.act move).2.kernel.Buries (s.step move).2.2.kernel := hwakes.buries
  have hages := hs.ages_step hp
  have htended : ∀ {p c}, (s.step move).2.2.kernel.pids.lookup p = some c → c ≠ Kernel.root →
      ((s.step move).2.2.kernel.block c).state ≠ .reaped →
      (s.step move).2.2.Tended (h ++ s.events move) c := by
    intro p c hl hroot hstate
    have hr := (Block.state_ne_reaped_iff _).1 hstate
    have hkernel : ((s.step move).2.2.kernel.block c).parent = some kernelPid →
        (s.step move).2.2.Tended (h ++ s.events move) c := fun hpar =>
      ⟨Kernel.root, by rw [hpar, hnext.kernel.ordered.root_pid], hnext.kernel.attends_root,
        Or.inl rfl⟩
    rcases hnext.kernel.kindred.parent c (hnext.kernel.placed.own hl).1 hroot with
      hpar | ⟨q, hf, hpar⟩
    · exact hkernel hpar
    by_cases hk : ((s.step move).2.2.kernel.block q).pid = kernelPid
    · exact hkernel (hpar.trans (by rw [hk]))
    refine ⟨q, hpar, ?_, Or.inr hf⟩
    -- the child was there before, and so was its forker
    have hc : c < s.kernel.blocks.size := Nat.lt_of_not_le fun hle => by
      rw [hburies.parent, heffect.parent_new hle] at hpar
      exact hk (Option.some.inj hpar).symm
    replace hf : forkerOf h c = some q := (hs.forkerOf_step hp hc).symm.trans hf
    have hq := Nat.lt_trans (hs.kernel.kindred.born hf).1 hc
    have hr₀ := hages.unreaped hc hr
    rw [hages.pid q hq] at hpar hk
    have hpar₁ := (hburies.parent c).symm.trans hpar
    cases hm : move.isExit with
    | true =>
      cases move with
      | exit pid status =>
        obtain ⟨hpar₀, he⟩ := hs.parent_exit heffect hf (hburies.unreaped c hr) hpar₁ hk
        have hattends := ht.attends_forker hs hf hr₀ hpar₀ hk
        exact hsound.attends_settle
          (hs.attends_exit hattends (he (Kernel.attends_iff.1 hattends).1))
      | _ => cases hm
    | false =>
      rcases heffect.parent hm hc with hsame | ⟨-, q', hf', hq'⟩
      · have hpar₀ := hsame.symm.trans hpar₁
        have hattends := ht.attends_forker hs hf hr₀ hpar₀ hk
        refine Bool.of_not_eq_false fun hgone => Bool.false_ne_true (hn.symm.trans ?_)
        exact strands_iff.2 ⟨hm, c, hc, hr, q, hq, hpar₀, hattends, hgone⟩
      · obtain rfl := Option.some.inj (hf'.symm.trans hf)
        exact hsound.attends_settle hq'
  exact ⟨htended, fun hl hr => hnext.descends htended hl hr⟩

/-- A move that strands a child breaks the tree. -/
theorem Sound.strands_of_tree (hs : s.Sound h) (ht : s.Tree h) {move : Move}
    (hp : move.permitted s h = true) (ht' : (s.step move).2.2.Tree (h ++ s.events move)) :
    s.strands move = false := by
  refine Bool.eq_false_iff.2 fun hn => ?_
  obtain ⟨hm, c, hc, hr, q, hq, hpar, hattends, hgone⟩ := strands_iff.1 hn
  obtain ⟨heffect, hsound⟩ := hs.act hp
  have hnext := hs.next hp
  have hburies : (s.act move).2.kernel.Buries (s.step move).2.2.kernel :=
    hsound.settle.1.buries
  have hages := hs.ages_step hp
  have hlq := (Kernel.attends_iff.1 hattends).1
  have hqroot : q ≠ Kernel.root := by
    rintro rfl
    rw [hnext.kernel.attends_root] at hgone
    cases hgone
  have hk := hs.kernel.pid_ne_kernelPid hlq hqroot
  -- the child was forked by the one that vanishes
  have hqf := ht.forker_eq hs hc (hages.unreaped hc hr) hpar hattends hqroot
  have hf' : forkerOf (h ++ s.events move) c = some q := (hs.forkerOf_step hp hc).trans hqf
  have hpar' : ((s.step move).2.2.kernel.block c).parent = some (s.kernel.block q).pid := by
    rw [hburies.parent]
    rcases heffect.parent hm hc with hsame | ⟨hhalf, -⟩
    · exact hsame.trans hpar
    · rw [(hs.kernel.kindred.half c hhalf).2.1] at hpar
      exact absurd (Option.some.inj hpar).symm hk
  rw [← hages.pid q hq] at hpar' hk
  rw [ht'.attends_forker hnext hf' hr hpar' hk] at hgone
  cases hgone

/-- A process vanishes but by an exit when its own fork fails, or with the reference of the
table on a created block. -/
theorem Sound.vanishes_by (hs : s.Sound h) {move : Move} (hp : move.permitted s h = true)
    (hm : move.isExit = false) {q : BlockId} (hq : q < s.kernel.blocks.size)
    (hattends : s.kernel.attends q = true)
    (hgone : (s.step move).2.2.kernel.attends q = false) :
    q ∈ s.inFlight ∧ (∃ refusal, move = .resume refusal) ∨
      .surrendered q ∈ h ++ s.events move := by
  obtain ⟨heffect, hsound⟩ := hs.act hp
  have hnext := hs.next hp
  have hburies : (s.act move).2.kernel.Buries (s.step move).2.2.kernel :=
    hsound.settle.1.buries
  have hlt := Nat.lt_of_lt_of_le hq (hs.ages_step hp).size
  rcases heffect.exiting hm hq with hsame | hflight
  · have he : ((s.step move).2.2.kernel.block q).exiting = false :=
      (hburies.exiting q).trans (hsame.trans (Kernel.attends_iff.1 hattends).2)
    refine Or.inr (List.contains_iff_mem.1 (Bool.of_not_eq_false fun hg => ?_))
    have hl := hnext.kernel.lookup_of_unreaped hlt (hnext.kernel.reaped_of_not_exiting he) hg
    rw [Kernel.attends_iff.2 ⟨hl, he⟩] at hgone
    cases hgone
  · exact Or.inl hflight

/-- A child is stranded by a fork that fails after its own child has forked, or with a
created block whose reference from the table is given back. -/
theorem Sound.strands_by (hs : s.Sound h) {move : Move} (hp : move.permitted s h = true)
    (hn : s.strands move = true) : ∃ c q,
    ((s.step move).2.2.kernel.block c).reaped = false ∧
      (s.kernel.block c).parent = some (s.kernel.block q).pid ∧ s.kernel.attends q = true ∧
      (q ∈ s.inFlight ∧ (∃ refusal, move = .resume refusal) ∨
        .surrendered q ∈ h ++ s.events move) := by
  obtain ⟨hm, c, hc, hr, q, hq, hpar, hattends, hgone⟩ := strands_iff.1 hn
  exact ⟨c, q, hr, hpar, hattends, hs.vanishes_by hp hm hq hattends hgone⟩

/-! ### Runs -/

/-- A session with no history but its kernel's block is a tree. -/
theorem Sound.tree_of_size (hs : s.Sound []) (hsize : s.kernel.blocks.size = 1) : s.Tree [] := by
  have htended : ∀ {p b}, s.kernel.pids.lookup p = some b → b ≠ Kernel.root →
      (s.kernel.block b).state ≠ .reaped → s.Tended [] b := fun hl hroot _ => by
    have hlt := (hs.kernel.placed.own hl).1
    rw [hsize] at hlt
    exact absurd (Nat.lt_one_iff.1 hlt) hroot
  exact ⟨htended, fun hl hr => hs.descends htended hl hr⟩

theorem Sound.tree_run_iff (hs : s.Sound h) (ht : s.Tree h) {moves : List Move}
    (hl : s.lawful h moves = true) :
    (∀ pre post, moves = pre ++ post → (s.run pre).Tree (s.history h pre)) ↔
      s.strandless moves = true := by
  induction moves generalizing s h with
  | nil =>
    refine iff_of_true (fun pre post hpre => ?_) rfl
    obtain ⟨rfl, -⟩ := List.append_eq_nil_iff.1 hpre.symm
    exact ht
  | cons move moves ih =>
    obtain ⟨hp, hrest⟩ := Bool.and_eq_true_iff.1 hl
    have hnext := hs.next hp
    rw [strandless, Bool.and_eq_true, Bool.not_eq_true']
    constructor
    · intro hall
      have ht' := hall [move] moves rfl
      rw [hs.run_cons] at ht'
      refine ⟨hs.strands_of_tree ht hp ht', (ih hnext ht' hrest).1 fun pre post hpre => ?_⟩
      have := hall (move :: pre) post (by rw [hpre]; rfl)
      rwa [hs.run_cons] at this
    · rintro ⟨hn, hmore⟩ pre post hpre
      have ht' := hs.tree_step ht hp hn
      rcases pre with _ | ⟨first, pre⟩
      · exact ht
      · obtain ⟨rfl, rfl⟩ := List.cons.inj hpre
        rw [hs.run_cons]
        exact (ih hnext ht' hrest).2 hmore pre post rfl

/-- In a run the blocks form a tree throughout if and only if no move strands a child. -/
theorem tree_iff_strandless {config : Config} {refusal : Option Errno} {moves : List Move}
    (hb : boot config refusal = .ok s) (hl : s.lawful [] moves = true) :
    (∀ pre post, moves = pre ++ post → (s.run pre).Tree (s.history [] pre)) ↔
      s.strandless moves = true :=
  have hs := (sound_boot hb).1
  hs.tree_run_iff (hs.tree_of_size (size_boot hb).1) hl

/-- Exits hand on children, and a fork that fails may have let others through. -/
theorem tree_of_exits : ∃ s : Session, ∃ moves : List Move,
    boot { maxProcesses := 8 } none = .ok s ∧ s.lawful [] moves = true ∧
      s.strandless moves = true ∧
      ∀ pre post, moves = pre ++ post → (s.run pre).Tree (s.history [] pre) := by
  let moves : List Move :=
    [.fork 0 .context, .resume none, .resume none, .resume none, .resume none,
      .fork 1 .context, .resume none, .fork 0 .context, .resume none, .resume none, .resume none,
      .resume none, .resume (some .enomem), .fork 1 .context, .resume none, .resume none,
      .resume none, .resume none, .exit 1 ⟨.exited, 0⟩]
  obtain ⟨s, hb, hl, hn⟩ : ∃ s : Session, boot { maxProcesses := 8 } none = .ok s ∧
      s.lawful [] moves = true ∧ s.strandless moves = true := ⟨_, rfl, by decide +kernel⟩
  exact ⟨s, moves, hb, hl, hn, (tree_iff_strandless hb hl).2 hn⟩

/-- A half-forked child forks, and its own fork fails: its child is left under a pid
without a block. -/
theorem not_tree_of_failed_fork : ∃ s : Session, ∃ moves : List Move,
    boot { maxProcesses := 8 } none = .ok s ∧ s.lawful [] moves = true ∧
      ¬(s.run moves).Tree (s.history [] moves) := by
  let moves : List Move :=
    [.fork 0 .context, .resume none, .resume none, .fork 1 .table, .resume none, .resume none,
      .resume none, .resume none, .resume (some .enomem)]
  obtain ⟨s, hb, hl, hchild, hstate, hparent, hgone⟩ : ∃ s : Session,
      boot { maxProcesses := 8 } none = .ok s ∧ s.lawful [] moves = true ∧
        (s.run moves).kernel.pids.lookup 2 = some 2 ∧
        ((s.run moves).kernel.block 2).state ≠ .reaped ∧
        ((s.run moves).kernel.block 2).parent = some 1 ∧
        (s.run moves).kernel.pids.lookup 1 = none := ⟨_, rfl, by decide +kernel⟩
  refine ⟨s, moves, hb, hl, fun ht => ?_⟩
  obtain ⟨q, hpar, hq, -⟩ := ht.tended hchild (by decide) hstate
  obtain ⟨hlookup, -⟩ := Kernel.attends_iff.1 hq
  rw [← Option.some.inj (hparent.symm.trans hpar), hgone] at hlookup
  cases hlookup

end Session

end Lifecycle
