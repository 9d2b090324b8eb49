import Lifecycle.Proofs.Kernel.Ascending
import Lifecycle.Proofs.Session.Siblings

/-! The careers of processes. In the course of a run a block only goes forward: its flags rise,
its status is written as it exits, and its parent changes when its fork links it and again when
its forker exits. The kernel's own block has no career at all, until the table is shut down. -/

namespace Lifecycle

namespace Kernel

variable {k k' : Kernel} {b : BlockId}

theorem buries_wake (hd : (k.block b).state ≠ .running) : k.Buries (k.wake b).2 := by
  cases hr : (k.block b).reaped with
  | true => exact (quiet_wake_of_reaped hr).buries
  | false =>
    have he : (k.block b).exited = true := by
      refine Bool.not_eq_false _ ▸ fun he => hd ?_
      exact (Block.state_eq_running_iff _).2 ⟨hr, he⟩
    rw [wake, hr, if_neg Bool.false_ne_true]
    exact buries_collected he (quiet_collect k b)

theorem Buries.ascends (h : k.Buries k') : k.Ascends k' := by
  refine .of_size h.size (fun b => ?_) fun b ho => ?_
  · rcases h.core b with hc | ⟨-, hc⟩
    · exact .of_core hc
    · exact (Block.ascends_collected _).trans (.of_core hc)
  · rcases h.core b with hc | ⟨he, hc⟩
    · exact ho.of_core hc
    · exact (ho.collected he).of_core hc

/-- What happens to blocks before sleepers wake. -/
theorem Ascends.buries {k₁ : Kernel} (h : k.Ascends k₁) (h' : k₁.Buries k') : k.Ascends k' :=
  h.trans h'.ascends h'.size fun b _ => h'.parent b

/-- A fork succeeds when its child gets its thread. -/
theorem forked_of_resume {pending : Pending} {refusal : Option Errno} {pid : Pid}
    {thread : String} (hr : (k.resume pending refusal).1 = .forked pid thread) :
    ∃ parent child, pending = .forkThread parent child ∧ pid = (k.block child).pid := by
  have hresumes := k.resumes pending refusal
  generalize k.resume pending refusal = out at hresumes hr
  cases hresumes with
  | @linked parent child k' files =>
    rcases k'.linkChild_cases parent child with ⟨error, hk⟩ | hk
    · cases hk.symm.trans hr
    · cases hk.symm.trans hr
  | @complete parent child _ _ spawned =>
    cases hr
    have hblock := block_eq_of_table (Called.spawn spawned).table child
    exact ⟨parent, child, rfl, congrArg Block.pid hblock⟩
  | _ => cases hr

theorem beginFork_ne_forked (k : Kernel) (parent pid : Pid) (thread : String) :
    (k.beginFork parent).1 ≠ .forked pid thread := by
  rcases k.beginFork_cases parent with ⟨error, hk⟩ | ⟨q, p, hk⟩ <;> rw [hk] <;> nofun

theorem beginCreate_ne_forked (k : Kernel) (name : String) (pid : Pid) (thread : String) :
    (k.beginCreate name).1 ≠ .forked pid thread := by
  rcases k.beginCreate_cases name with ⟨error, hk⟩ | ⟨p, hk⟩ <;> rw [hk] <;> nofun

end Kernel

namespace Session

variable {s : Session} {h : List Event} {b c q : BlockId} {move : Move} {moves : List Move}

/-! ### What one move does to a block -/

/-- Sleepers that wake have their target reaped, in any session. -/
theorem buries_settle (s : Session) : s.kernel.Buries s.settle.2.kernel := by
  have hall : ∀ (ws : List ParkedWait) (out : List Woken) (t : Session),
      (∀ w ∈ ws, (t.kernel.block w.block).state ≠ .running) →
        t.kernel.Buries (ws.foldl wakeOne (out, t)).2.kernel := fun ws => by
    induction ws with
    | nil => exact fun out t _ => (Kernel.Quiet.refl _).buries
    | cons w ws ih =>
      intro out t hws
      have hw := Kernel.buries_wake (hws w List.mem_cons_self)
      rw [List.foldl_cons]
      refine hw.trans (ih _ { t with kernel := (t.kernel.wake w.block).2 } fun v hv hn => ?_)
      exact hws v (List.mem_cons_of_mem _ hv) ((hw.running _).1 hn)
  exact hall _ [] { s with parked := s.parked.filter fun w => !isDue s.kernel w }
    fun w hw => (isDue_iff ..).1 (List.mem_filter.1 hw).2

theorem Sound.ascends_act (hs : s.Sound h) {es : List Event} {k' : Kernel}
    (he : s.Effect h move es k') : s.kernel.Ascends k' := by
  cases he with
  | quiet quiet => exact quiet.ascends
  | surrendered free quiet => exact quiet.ascends
  | made blocks quiet => exact .of_add blocks quiet
  | born blocks => exact .of_add blocks (.refl _)
  | linked half forker running held quiet =>
    exact .of_update quiet (Block.ascends_adopt ..) fun ho => ⟨ho.exiting, ho.exited⟩
  | unwound flight forker running quiet => exact Kernel.ascends_unwound quiet
  | left found forker running landed size core =>
    exact Kernel.ascends_departure (hs.kernel.exited_of_not_exiting running)
      (hs.kernel.reaped_of_not_exiting running) size core
  | slept named found parent waiter reaped exited quiet =>
    exact .of_update quiet (Block.ascends_committed _) fun ho => ⟨ho.exiting, ho.exited⟩
  | collected named found parent waiter reaped exited quiet =>
    exact .of_update quiet ((Block.ascends_committed _).trans (Block.ascends_collected _))
      fun ho => ⟨ho.exiting, fun _ => exited⟩

/-- A table that is shut down has no more to do with blocks, but for the forks that had stopped. -/
theorem quiet_act_of_dead (hl : s.kernel.live = false) (hm : ∀ refusal, move ≠ .resume refusal) :
    s.kernel.Quiet (s.act move).2.kernel := by
  have hp := performsDown hl move
  generalize s.act move = out at hp ⊢
  cases hp with
  | refused => exact .refl _
  | exit => exact .refl _
  | resume => exact absurd rfl (hm _)
  | slot handles => exact handles.quiet

/-- What a move does to blocks that have been made when it shuts the table down, or the table
is shut down already: none is taken under another parent. -/
structure Ceases (s t : Session) : Prop where
  ascends : s.kernel.Ascends t.kernel
  parent : ∀ c < s.kernel.blocks.size, (t.kernel.block c).parent = (s.kernel.block c).parent
  ended : t.Ended

theorem Ceases.of_quiet_act (hq : s.kernel.Quiet (s.act move).2.kernel)
    (he : (s.step move).2.2.Ended) : s.Ceases (s.step move).2.2 where
  ascends := hq.ascends.buries (buries_settle _)
  parent c _ := ((buries_settle _).parent c).trans (hq.parent c)
  ended := he

theorem ceases_shutdown (hs : s.Firm) (hf : s.kernel.fault = none) (hl : s.kernel.live = true) :
    s.Ceases (s.step .shutdown).2.2 := by
  have hi := hs.intact hf hl
  exact .of_quiet_act (Kernel.shutdown_spec hl hi.valid).2.1 (ended_shutdown hi)

theorem Ended.ceases (he : s.Ended) (hs : s.Firm) (move : Move) : s.Ceases (s.run [move]) := by
  rw [Session.run_cons, run_nil]
  cases hf : s.kernel.fault with
  | some fault => exact ⟨.refl _, fun _ _ => rfl, he⟩
  | none =>
    have hstep := he.step hs hf move
    by_cases hm : ∃ refusal, move = .resume refusal
    · obtain ⟨refusal, rfl⟩ := hm
      cases hframes : s.frames with
      | nil =>
        refine .of_quiet_act ?_ hstep
        rw [act_resume_of_nil hframes]
        exact .refl _
      | cons f fs =>
        have hspent : s.kernel.Spent := (hs.kernel hf).resolve_left fun hi => by
          cases he.live.symm.trans hi.live
        have hq : (s.kernel.resume f.pending refusal).2.Buries
            (s.step (.resume refusal)).2.2.kernel := by
          refine Kernel.Buries.trans ?_ (buries_settle (s.act (.resume refusal)).2)
          rw [act_resume_of_cons hframes]
          exact (quiet_proceed { s with
            kernel := (s.kernel.resume f.pending refusal).2
            frames := fs } ..).buries
        exact ⟨(Kernel.advances_resume ..).ascends.buries hq,
          fun c hc => (hq.parent c).trans (hspent.parent_resume _ _ hc), hstep⟩
    · exact .of_quiet_act (quiet_act_of_dead he.live fun refusal hr => hm ⟨refusal, hr⟩) hstep

/-! ### Parents -/

/-- The move in which a fork goes on that links its child. -/
structure Links (s : Session) (move : Move) (q c : BlockId) : Prop where
  made : c < s.kernel.blocks.size
  resumes : ∃ refusal purpose frames, move = .resume refusal ∧
    s.frames = ⟨.forkFiles q c, purpose⟩ :: frames
  running : (s.kernel.block q).exiting = false

/-- The move in which a process exits. -/
structure Resigns (s : Session) (move : Move) (q : BlockId) : Prop where
  exits : ∃ status, move = .exit (s.kernel.block q).pid status
  found : s.kernel.pids.lookup (s.kernel.block q).pid = some q
  running : (s.kernel.block q).exiting = false
  gone : ((s.run [move]).kernel.block q).exiting = true

/-- What a move may do to the parent of a block. -/
inductive Reparents (s : Session) (h : List Event) (move : Move) (c : BlockId) (t : Session) : Prop
  | kept (same : (t.kernel.block c).parent = (s.kernel.block c).parent)
  | linked {q : BlockId} (forker : forkerOf h c = some q) (links : s.Links move q c)
      (before : (s.kernel.block c).parent = some kernelPid)
      (after : (t.kernel.block c).parent = some (s.kernel.block q).pid)
  | handed {q : BlockId} (forker : forkerOf h c = some q) (resigns : s.Resigns move q)
      (after : (t.kernel.block c).parent = some kernelPid)

theorem Reparents.settle {t : Session} (hr : s.Reparents h move c t) :
    s.Reparents h move c t.settle.2 := by
  have hp := (buries_settle t).parent c
  cases hr with
  | kept same => exact .kept (hp.trans same)
  | linked forker links before after => exact .linked forker links before (hp.trans after)
  | handed forker resigns after => exact .handed forker resigns (hp.trans after)

theorem Sound.reparents_resume (hs : s.Sound h) (refusal : Option Errno)
    (hc : c < s.kernel.blocks.size) :
    s.Reparents h (.resume refusal) c (s.act (.resume refusal)).2 := by
  cases hframes : s.frames with
  | nil =>
    rw [act_resume_of_nil hframes]
    exact .kept rfl
  | cons f fs =>
    rw [act_resume_of_cons hframes]
    have hq := quiet_proceed
      { s with kernel := (s.kernel.resume f.pending refusal).2, frames := fs }
      f.purpose (s.kernel.resume f.pending refusal).1
    rcases (Kernel.advances_resume s.kernel f.pending refusal).parent hc with
      hsame | ⟨q, hp, hrunning, hparent⟩
    · exact .kept ((hq.parent c).trans hsame)
    · have hmem : f ∈ s.frames := hframes ▸ List.mem_cons_self
      have hfits := hs.ready.fits f hmem
      have hhalf := hs.kernel.kindred.half c (mem_halfForked.2 ⟨f, hmem, by rw [hp]; rfl⟩)
      have hinstalled : s.kernel.pids.lookup (s.kernel.block q).pid = some q :=
        hs.lookup_of_names (Or.inr (Or.inr ⟨f, hmem, Or.inl (by rw [hp]; rfl)⟩))
      rw [hp] at hfits
      rw [hs.kernel.adopt_eq hinstalled] at hparent
      refine .linked hfits ⟨hc, ⟨refusal, f.purpose, fs, rfl, ?_⟩, hrunning⟩ hhalf.2.1
        ((hq.parent c).trans hparent)
      rw [hframes, ← hp]

/-- An exit hands on children that run, and nobody else. -/
theorem Sound.reparents_exit (hs : s.Sound h) {pid : Pid} {status : ExitStatus}
    (hp : (Move.exit pid status).permitted s h = true) :
    s.Reparents h (.exit pid status) c (s.act (.exit pid status)).2 := by
  have heffect := (hs.act hp).effect
  generalize s.actEvents _ _ _ = es at heffect
  cases heffect with
  | quiet quiet => exact .kept (quiet.parent c)
  | @left _ _ b _ _ found forker running landed size core =>
    have hpid := (hs.kernel.placed.own found).2
    by_cases hsame : ((s.act (.exit pid status)).2.kernel.block c).parent =
        (s.kernel.block c).parent
    · exact .kept hsame
    · rw [Block.parent_of_core (core c)] at hsame
      -- a child of the process that exits
      have hmem : c ∈ s.kernel.childBlocks pid := by
        have hd := s.kernel.becomes b status.encode c
        generalize s.kernel.departure b status.encode c = y at hd hsame
        cases hd with
        | adopted _ child => rwa [hpid] at child
        | _ => exact absurd rfl hsame
      obtain ⟨hl, hlink⟩ := hs.kernel.mem_childBlocks.1 hmem
      obtain ⟨c', q, hc', hq, -, hforker⟩ := hs.kernel.kindred.linked hlink
      cases hl.symm.trans hc'
      cases found.symm.trans hq
      refine .handed (hforker.resolve_left (hs.kernel.ne_root_of_forker forker))
        ⟨⟨status, by rw [hpid]⟩, hs.kernel.lookup_of_installed found, running, ?_⟩ ?_
      · rw [hs.run_cons, run_nil]
        refine ((buries_settle (s.act (.exit pid status)).2).exiting b).trans ?_
        rw [Block.exiting_of_core (core b), Kernel.departure_self]
        rfl
      · rw [Block.parent_of_core (core c)]
        exact (s.kernel.departure_parent b status.encode c).resolve_left hsame

theorem Sound.reparents (hs : s.Sound h) (hp : move.permitted s h = true)
    (hc : c < s.kernel.blocks.size) : s.Reparents h move c (s.run [move]) := by
  rw [hs.run_cons, run_nil]
  refine Reparents.settle (t := (s.act move).2) ?_
  have heffect := (hs.act hp).effect
  generalize s.actEvents _ _ _ = es at heffect
  cases heffect with
  | quiet quiet => exact .kept (quiet.parent c)
  | surrendered free quiet => exact .kept (quiet.parent c)
  | slept named found parent waiter reaped exited quiet =>
    exact .kept (quiet.view_of_update Block.parent_of_core rfl c)
  | collected named found parent waiter reaped exited quiet =>
    exact .kept (quiet.view_of_update Block.parent_of_core rfl c)
  | left found forker running landed size core => exact hs.reparents_exit hp
  | _ => exact hs.reparents_resume _ hc

/-! ### A course -/

/-- The session after so many of the moves. -/
def after (s : Session) (moves : List Move) (n : Nat) : Session := s.run (moves.take n)

@[simp] theorem after_zero (s : Session) (moves : List Move) : s.after moves 0 = s := by
  rw [after, List.take_zero, run_nil]

@[simp] theorem after_succ (s : Session) (move : Move) (moves : List Move) (n : Nat) :
    s.after (move :: moves) (n + 1) = (s.run [move]).after moves n := by
  rw [after, List.take_succ_cons, run_cons_next, after]

/-- The states after some and after more of the moves. -/
theorem after_of_le (s : Session) (moves : List Move) {m n : Nat} (hmn : m ≤ n) :
    s.after moves n = (s.after moves m).after (moves.drop m) (n - m) := by
  have hsplit := List.take_append_drop m (moves.take n)
  rw [List.take_take, Nat.min_eq_left hmn, List.drop_take] at hsplit
  rw [after, ← hsplit, run_append, after, after]

namespace Course

/-- The next move is permitted, or the table is shut down in it or before. -/
theorem permitted_or_ceases (hs : s.Course (move :: moves)) :
    (∃ h, s.Sound h ∧ move.permitted s h = true ∧ (s.run [move]).lawful (h ++ s.events move)
      (moves.takeWhile (!·.isShutdown)) = true) ∨ s.Ceases (s.run [move]) := by
  rcases hs.stage with ⟨h, hsound, hl⟩ | hended
  · rw [hsound.run_cons, run_nil]
    cases hm : move.isShutdown with
    | true =>
      cases move with
      | shutdown => exact Or.inr (ceases_shutdown hs.firm hsound.fault hsound.kernel.placed.live)
      | _ => cases hm
    | false =>
      rw [List.takeWhile_cons_of_pos (by rw [hm]; rfl)] at hl
      obtain ⟨hp, hrest⟩ := Bool.and_eq_true_iff.1 hl
      exact Or.inl ⟨h, hsound, hp, hrest⟩
  · exact Or.inr (hended.ceases hs.firm move)

theorem ascends_next (hs : s.Course (move :: moves)) :
    s.kernel.Ascends (s.run [move]).kernel := by
  rcases hs.permitted_or_ceases with ⟨h, hsound, hp, -⟩ | hceases
  · rw [hsound.run_cons, run_nil]
    exact (hsound.ascends_act (hsound.act hp).effect).buries (buries_settle _)
  · exact hceases.ascends

theorem ascends_run {more : List Move} (hs : s.Course (moves ++ more))
    (hb : b < s.kernel.blocks.size) : b < (s.run moves).kernel.blocks.size ∧
      (s.kernel.block b).Ascends ((s.run moves).kernel.block b) := by
  induction moves generalizing s with
  | nil => exact ⟨hb, .refl _⟩
  | cons move moves ih =>
    have hnext := hs.ascends_next
    obtain ⟨hlt, hrest⟩ := ih hs.next (Nat.lt_of_lt_of_le hb hnext.size)
    rw [run_cons_next]
    exact ⟨hlt, (hnext.block b hb).trans hrest⟩

theorem orderly_run {more : List Move} (hs : s.Course (moves ++ more))
    (ho : ∀ b < s.kernel.blocks.size, (s.kernel.block b).Orderly) :
    ∀ b < (s.run moves).kernel.blocks.size, ((s.run moves).kernel.block b).Orderly := by
  induction moves generalizing s with
  | nil => exact ho
  | cons move moves ih =>
    rw [run_cons_next]
    have hnext := hs.ascends_next
    refine ih hs.next fun b hb => ?_
    by_cases hlt : b < s.kernel.blocks.size
    · exact hnext.orderly b hlt (ho b hlt)
    · exact (hnext.new b (Nat.le_of_not_lt hlt) hb).1

theorem rest (hs : s.Course moves) (n : Nat) : (s.after moves n).Course (moves.drop n) := by
  rw [← List.take_append_drop n moves] at hs
  exact hs.run

theorem ascends_after (hs : s.Course moves) {m n : Nat} (hmn : m ≤ n)
    (hb : b < (s.after moves m).kernel.blocks.size) : b < (s.after moves n).kernel.blocks.size ∧
      ((s.after moves m).kernel.block b).Ascends ((s.after moves n).kernel.block b) := by
  have hm := hs.rest m
  rw [← List.take_append_drop (n - m) (moves.drop m)] at hm
  rw [after_of_le s moves hmn]
  exact hm.ascends_run hb

theorem orderly_after (hs : s.Course moves)
    (ho : ∀ b < s.kernel.blocks.size, (s.kernel.block b).Orderly) (n : Nat)
    (hb : b < (s.after moves n).kernel.blocks.size) :
    ((s.after moves n).kernel.block b).Orderly := by
  rw [← List.take_append_drop n moves] at hs
  exact hs.orderly_run ho b hb

end Course

/-! ### The parents of a process -/

/-- A block has one parent throughout. -/
theorem Ended.parent_after (he : s.Ended) (hs : s.Firm) (hb : b < s.kernel.blocks.size) (n : Nat) :
    ((s.after moves n).kernel.block b).parent = (s.kernel.block b).parent := by
  induction moves generalizing s n with
  | nil => rw [after, List.take_nil, run_nil]
  | cons move moves ih =>
    cases n with
    | zero => rw [after_zero]
    | succ n =>
      have hceases := he.ceases hs move
      rw [after_succ, ih hceases.ended (hs.next move)
        (Nat.lt_of_lt_of_le hb hceases.ascends.size), hceases.parent b hb]

/-- A child of the kernel that is linked, or that the kernel has been handed, stays with it. -/
theorem Course.parent_of_lodged (hs : s.Course moves) (hb : b < s.kernel.blocks.size)
    (hl : s.Lodged kernelPid b) (hp : (s.kernel.block b).parent = some kernelPid) (n : Nat) :
    ((s.after moves n).kernel.block b).parent = some kernelPid := by
  induction moves generalizing s n with
  | nil => rwa [after, List.take_nil, run_nil]
  | cons move moves ih =>
    cases n with
    | zero => rwa [after_zero]
    | succ n =>
      have hnext := hs.ascends_next
      rw [after_succ]
      refine ih hs.next (Nat.lt_of_lt_of_le hb hnext.size) (hs.lodged_next hl) ?_ n
      rcases hs.permitted_or_ceases with ⟨h, hsound, hm, -⟩ | hceases
      · cases hsound.reparents hm hb with
        | kept same => exact same.trans hp
        | handed forker resigns after => exact after
        | linked forker links before after =>
          obtain ⟨refusal, purpose, frames, -, hframes⟩ := links.resumes
          obtain ⟨-, hhalf, -⟩ := hl hsound.kernel.placed.live
          refine absurd (mem_halfForked.2 ⟨_, hframes ▸ List.mem_cons_self, ?_⟩) hhalf
          rfl
      · exact (hceases.parent b hb).trans hp

/-- A child that has been linked is a child of its forker up to the exit of that, if it comes to
that, and then one of the kernel. -/
theorem Sound.parent_of_linked (hs : s.Sound h) (hf : s.Firm)
    (hl : s.lawful h (moves.takeWhile (!·.isShutdown)) = true) (hq : forkerOf h b = some q)
    (hb : b < s.kernel.blocks.size) (hp : (s.kernel.block b).parent = some (s.kernel.block q).pid)
    (hk : (s.kernel.block q).pid ≠ kernelPid) : ∃ left,
      (∀ n ≤ moves.length, ((s.after moves n).kernel.block b).parent =
        some (if n ≤ left then (s.kernel.block q).pid else kernelPid)) ∧
      ∀ move, moves[left]? = some move → (s.after moves left).Resigns move q := by
  induction moves generalizing s h with
  | nil =>
    refine ⟨0, fun n hn => ?_, nofun⟩
    obtain rfl := Nat.le_zero.1 hn
    rwa [after_zero, if_pos (Nat.le_refl 0)]
  | cons move moves ih =>
    have hcourse : s.Course (move :: moves) := ⟨hf, Or.inl ⟨h, hs, hl⟩⟩
    cases hm : move.isShutdown with
    | true =>
      refine ⟨moves.length + 1, fun n hn => ?_, fun m hget => ?_⟩
      · rw [if_pos (by simpa using hn), ← hp]
        cases n with
        | zero => rw [after_zero]
        | succ n =>
          cases move with
          | shutdown =>
            have hceases := ceases_shutdown hf hs.fault hs.kernel.placed.live
            rw [after_succ, hs.run_cons, run_nil, hceases.ended.parent_after (hf.step hs.fault _)
              (Nat.lt_of_lt_of_le hb hceases.ascends.size), hceases.parent b hb]
          | _ => cases hm
      · rw [List.getElem?_eq_none (by simp)] at hget
        cases hget
    | false =>
      rw [List.takeWhile_cons_of_pos (by rw [hm]; rfl)] at hl
      obtain ⟨hpermitted, hrest⟩ := Bool.and_eq_true_iff.1 hl
      have hlt := (hs.kernel.kindred.born hq).1
      have hpid := (hcourse.ascends_next.block q (Nat.lt_trans hlt hb)).pid
      have hnext := hs.next hpermitted
      cases hs.reparents hpermitted hb with
      | kept same =>
        rw [hs.run_cons, run_nil] at same hpid
        obtain ⟨left, hparent, hleft⟩ := ih hnext (hf.step hs.fault move) hrest
          (forkerOf_append_of_some hq _) (Nat.lt_of_lt_of_le hb (hs.ages_step hpermitted).size)
          (by rw [same, hp, hpid]) (by rwa [hpid])
        refine ⟨left + 1, fun n hn => ?_, fun m hget => ?_⟩
        · cases n with
          | zero => rwa [after_zero, if_pos (Nat.zero_le _)]
          | succ n =>
            rw [after_succ, hs.run_cons, run_nil, hparent n (Nat.le_of_succ_le_succ hn), hpid]
            simp only [Nat.add_le_add_iff_right]
        · rw [after_succ, hs.run_cons, run_nil]
          exact hleft m (by rwa [List.getElem?_cons_succ] at hget)
      | linked forker links before after => exact absurd (Option.some.inj (hp.symm.trans before)) hk
      | handed forker resigns after =>
        cases hq.symm.trans forker
        refine ⟨0, fun n hn => ?_, fun m hget => ?_⟩
        · cases n with
          | zero => rwa [after_zero, if_pos (Nat.le_refl 0)]
          | succ n =>
            have hhalf : b ∉ s.halfForked := fun hm =>
              hk (Option.some.inj (hp.symm.trans (hs.kernel.kindred.half b hm).2.1))
            have hlodged : s.Lodged (s.kernel.block q).pid b := fun _ =>
              ⟨hb, hhalf, fun hpk => absurd hpk hk⟩
            have hkept := hcourse.lodged_next hlodged
            rw [after_succ, if_neg (Nat.not_succ_le_zero n)]
            exact hcourse.next.parent_of_lodged
              (Nat.lt_of_lt_of_le hb hcourse.ascends_next.size)
              (fun hlive => ⟨(hkept hlive).1, (hkept hlive).2.1, fun _ => after⟩) after n
        · cases hget
          rwa [after_zero]

/-- Who is the parent of a block in a run: the kernel, from when the fork links it that process,
and again the kernel after that has exited. -/
structure Fostered (s : Session) (moves : List Move) (b forker : BlockId) (linked left : Nat) :
    Prop where
  parent : ∀ n ≤ moves.length, b < (s.after moves n).kernel.blocks.size →
    ((s.after moves n).kernel.block b).parent = some (if linked < n ∧ n ≤ left
      then ((s.after moves n).kernel.block forker).pid else kernelPid)
  links : ∀ move, moves[linked]? = some move → (s.after moves linked).Links move forker b
  resigns : ∀ move, moves[left]? = some move →
    linked < left ∧ (s.after moves left).Resigns move forker

theorem Course.fostered (hs : s.Course moves)
    (hp : b < s.kernel.blocks.size → (s.kernel.block b).parent = some kernelPid) :
    ∃ forker linked left, s.Fostered moves b forker linked left := by
  induction moves generalizing s with
  | nil =>
    refine ⟨0, 0, 0, fun n hn hb => ?_, nofun, nofun⟩
    obtain rfl := Nat.le_zero.1 hn
    rw [after_zero] at hb ⊢
    rw [if_neg (fun hlt => Nat.lt_irrefl 0 hlt.1)]
    exact hp hb
  | cons move moves ih =>
    have hnext := hs.ascends_next
    by_cases hkept : b < (s.run [move]).kernel.blocks.size →
        ((s.run [move]).kernel.block b).parent = some kernelPid
    · obtain ⟨forker, linked, left, hparent, hlinks, hresigns⟩ := ih hs.next hkept
      refine ⟨forker, linked + 1, left + 1, fun n hn hb => ?_, fun m hget => ?_, fun m hget => ?_⟩
      · cases n with
        | zero =>
          rw [after_zero] at hb ⊢
          rw [if_neg (fun hlt => Nat.not_lt_zero _ hlt.1)]
          exact hp hb
        | succ n =>
          rw [after_succ] at hb ⊢
          rw [hparent n (Nat.le_of_succ_le_succ hn) hb]
          simp only [Nat.add_lt_add_iff_right, Nat.add_le_add_iff_right]
      · rw [after_succ]
        exact hlinks m (by rwa [List.getElem?_cons_succ] at hget)
      · rw [after_succ]
        obtain ⟨hlt, hout⟩ := hresigns m (by rwa [List.getElem?_cons_succ] at hget)
        exact ⟨Nat.succ_lt_succ hlt, hout⟩
    · obtain ⟨hmade, hother⟩ := Classical.not_imp.1 hkept
      have hb : b < s.kernel.blocks.size := Nat.lt_of_not_le fun hle =>
        hother (hnext.new b hle hmade).2
      rcases hs.permitted_or_ceases with ⟨h, hsound, hpermitted, hrest⟩ | hceases
      · cases hsound.reparents hpermitted hb with
        | kept same => exact absurd (same.trans (hp hb)) hother
        | handed forker resigns after => exact absurd after hother
        | @linked q forker links before after =>
          have hq := (hsound.kernel.kindred.born forker).1
          have hpid := (hnext.block q (Nat.lt_trans hq hb)).pid
          have hfirm := hs.firm.next move
          have hsound' : (s.run [move]).Sound (h ++ s.events move) := by
            rw [hsound.run_cons, run_nil]
            exact hsound.next hpermitted
          obtain ⟨left, hparent, hleft⟩ := hsound'.parent_of_linked hfirm hrest
            (forkerOf_append_of_some forker _) hmade (by rw [after, hpid])
            (fun hk => hother (by rw [after, ← hpid, hk]))
          refine ⟨q, 0, left + 1, fun n hn hlt => ?_, fun m hget => ?_, fun m hget => ?_⟩
          · cases n with
            | zero =>
              rw [after_zero, if_neg (fun hlt => Nat.lt_irrefl 0 hlt.1)]
              exact before
            | succ n =>
              obtain ⟨-, hage⟩ := hs.next.ascends_after (Nat.zero_le n)
                (b := q) (Nat.lt_trans hq (by rwa [after_zero]))
              rw [after_zero] at hage
              rw [after_succ, hparent n (Nat.le_of_succ_le_succ hn), hage.pid]
              simp only [Nat.zero_lt_succ, Nat.add_le_add_iff_right, true_and]
          · cases hget
            rwa [after_zero]
          · rw [after_succ]
            exact ⟨Nat.zero_lt_succ _, hleft m (by rwa [List.getElem?_cons_succ] at hget)⟩
      · exact absurd ((hceases.parent b hb).trans (hp hb)) hother

/-! ### Who takes children -/

/-- Who arrives under another process than the kernel comes from a fork that links him. -/
theorem half_of_arrives {p : Pid} (hc : c ∈ s.arrivals move p)
    (hp : p ≠ kernelPid) : c ∈ s.halfForked ∧ move.isExit = false := by
  cases arrives hc with
  | linked stopped => exact ⟨mem_halfForked.2 ⟨_, stopped ▸ List.mem_cons_self, rfl⟩, rfl⟩
  | handed => exact absurd rfl hp

/-- Whoever a move gives a child is installed after it and has not begun to exit. -/
theorem Course.attended (hs : s.Course (move :: moves)) {p : Pid}
    (hc : c ∈ (s.run [move]).kernel.childBlocks p) (hnew : c ∉ s.kernel.childBlocks p) :
    ∃ q, (s.run [move]).kernel.pids.lookup p = some q ∧
      ((s.run [move]).kernel.block q).exiting = false := by
  rcases hs.permitted_or_ceases with ⟨h, hsound, hm, -⟩ | hceases
  · have hnext := hsound.next hm
    obtain ⟨kept, new, he, hkept, hin, -⟩ := hs.lists_next p
    have harrives : c ∈ s.arrivals move p := by
      rw [he] at hc
      rcases List.mem_append.1 hc with hc | hc
      · exact absurd (hkept.subset hc) hnew
      · exact hin.subset hc
    rw [hsound.run_cons, run_nil] at hc ⊢
    obtain ⟨hl, hlink⟩ := hnext.kernel.mem_childBlocks.1 hc
    obtain ⟨c', q, hc', hq, hparent, hforker⟩ := hnext.kernel.kindred.linked hlink
    cases hl.symm.trans hc'
    refine ⟨q, hq, ?_⟩
    by_cases hroot : q = Kernel.root
    · rw [hroot]
      exact hnext.kernel.exiting_root
    · have hp : p ≠ kernelPid := fun hk =>
        hroot (Option.some.inj (hq.symm.trans (hk ▸ hnext.kernel.lookup_root)))
      obtain ⟨hhalf, hexit⟩ := half_of_arrives harrives hp
      have hlt := (hsound.kernel.placed.own (hsound.lookup_of_arrives harrives).1).1
      have hborn : forkerOf (h ++ s.events move) c = some q := hforker.resolve_left hroot
      rw [hsound.forkerOf_step hm hlt] at hborn
      have hacts := hsound.act hm
      rcases hacts.effect.parent hexit hlt with hsame | ⟨-, q', hq', hattends⟩
      · have hkernel := hsame.trans (hsound.kernel.kindred.half c hhalf).2.1
        rw [← (buries_settle (s.act move).2).parent c] at hkernel
        exact absurd (Option.some.inj (hparent.symm.trans hkernel)) hp
      · cases hborn.symm.trans hq'
        exact (Kernel.attends_iff.1 (hacts.sound.attends_settle hattends)).2
  · rw [Kernel.childBlocks_of_family hceases.ended.family] at hc
    cases hc

/-! ### The kernel's own block -/

/-- The kernel's own block is at its pid, runs and has no parent. -/
structure Enthroned (s : Session) : Prop where
  installed : s.kernel.pids.lookup kernelPid = some Kernel.root
  running : (s.kernel.block Kernel.root).state = .running
  staying : (s.kernel.block Kernel.root).exiting = false
  parent : (s.kernel.block Kernel.root).parent = none

/-- No fork has the kernel for its child, and no wait has it for its target. -/
structure Spares (s : Session) (move : Move) : Prop where
  forked : ∀ {via child thread}, (s.step move).1 = .forked via (.ok (child, thread)) →
    child ≠ kernelPid
  waited : ∀ {caller target options via destination report pid raw},
    move = .wait caller target options via destination → (s.step move).1 = .waited report →
    report.result = .ok (pid, raw) → pid ≠ kernelPid
  woken : ∀ {w pid raw}, w ∈ (s.step move).2.1 → w.report.result = .ok (pid, raw) →
    pid ≠ kernelPid

theorem Sound.enthroned (hs : s.Sound h) : s.Enthroned where
  installed := hs.kernel.lookup_root
  running := (Block.state_eq_running_iff _).2
    ⟨hs.kernel.reaped_of_not_exiting hs.kernel.exiting_root,
      hs.kernel.exited_of_not_exiting hs.kernel.exiting_root⟩
  staying := hs.kernel.exiting_root
  parent := hs.kernel.ordered.root_parent

/-- Sleepers that wake collect zombies. -/
theorem zombie_of_wakes {k k' : Kernel} {es : List Event} (hw : Wakes h k es k') {caller pid : Pid}
    {raw : RawStatus} (hc : .collected b caller pid raw ∈ es) :
    (k.block b).exited = true ∧ (k.block b).reaped = false ∧ pid = (k.block b).pid := by
  induction hw with
  | done => cases hc
  | gone quiet rest ih =>
    obtain ⟨hx, hr, hp⟩ := ih hc
    exact ⟨(quiet.exited b).symm.trans hx, (quiet.reaped b).symm.trans hr, hp.trans (quiet.pid b)⟩
  | @collected k k₁ _ _ d _ committed reaped exited quiet rest ih =>
    rcases List.mem_cons.1 hc with hc | hc
    · cases hc
      exact ⟨exited, reaped, rfl⟩
    · have hburies := Kernel.buries_collected exited quiet
      obtain ⟨hx, hr, hp⟩ := ih hc
      exact ⟨(hburies.exited b).symm.trans hx, hburies.unreaped b hr, hp.trans (hburies.pid b)⟩

/-- A process that is collected is not the kernel: it is somebody's child, or has exited. -/
theorem Effect.child_of_collected {es : List Event} {k' : Kernel} (he : s.Effect h move es k')
    {caller pid : Pid} {raw : RawStatus} (hc : .collected b caller pid raw ∈ es) :
    s.kernel.pids.lookup pid = some b ∧ (s.kernel.block b).parent = some caller := by
  cases he with
  | collected named found parent waiter reaped exited quiet =>
    obtain ⟨rfl, rfl, rfl, -⟩ := by simpa using hc
    exact ⟨found, parent⟩
  | _ => simp at hc

theorem Sound.collected_ne_kernelPid (hs : s.Sound h) (hp : move.permitted s h = true)
    {caller pid : Pid} {raw : RawStatus} (hc : .collected b caller pid raw ∈ s.events move) :
    pid ≠ kernelPid := by
  obtain ⟨heffect, hacted⟩ := hs.act hp
  rcases List.mem_append.1 hc with hc | hc
  · obtain ⟨hfound, hparent⟩ := heffect.child_of_collected hc
    rintro rfl
    cases hfound.symm.trans hs.kernel.lookup_root
    cases hparent.symm.trans hs.kernel.ordered.root_parent
  · obtain ⟨hx, hr, rfl⟩ := zombie_of_wakes hacted.settle.1 hc
    obtain ⟨q, hq⟩ := hacted.kernel.kindred.forked (hacted.kernel.ordered.exiting b hx)
    exact hacted.kernel.pid_ne_kernelPid (hacted.kernel.lookup_of_forker hq hr)
      (hacted.kernel.ne_root_of_forker hq)

theorem forked_of_proceed {purpose : Purpose} {progress : Progress} {via : Via} {child : Pid}
    {thread : String} (hr : (s.proceed purpose progress).1 = .forked via (.ok (child, thread))) :
    progress = .forked child thread := by
  unfold proceed at hr
  split at hr <;> cases hr
  rfl

/-- A fork that succeeds was the innermost that had stopped, at the call for a thread. -/
theorem forked_of_act {via : Via} {child : Pid} {thread : String}
    (hr : (s.act move).1 = .forked via (.ok (child, thread))) :
    ∃ f ∈ s.frames, ∃ c, f.pending.child? = some c ∧ child = (s.kernel.block c).pid := by
  have hp := s.performs move
  generalize s.act move = out at hp hr
  cases hp with
  | declined declines =>
    subst hr
    cases declines
  | fork => exact (Kernel.beginFork_ne_forked _ _ _ _ (forked_of_proceed hr)).elim
  | create => exact (Kernel.beginCreate_ne_forked _ _ _ _ (forked_of_proceed hr)).elim
  | @resume f _ _ stopped =>
    obtain ⟨parent, c, hpending, hpid⟩ := Kernel.forked_of_resume (forked_of_proceed hr)
    exact ⟨f, stopped ▸ List.mem_cons_self, c, by rw [hpending]; rfl, hpid⟩
  | slot handles => cases handles <;> cases hr
  | _ => cases hr

theorem Sound.spares (hs : s.Sound h) (hp : move.permitted s h = true) : s.Spares move where
  forked hr := by
    obtain ⟨f, hf, c, hc, rfl⟩ := forked_of_act hr
    obtain ⟨⟨q, hq⟩, -⟩ := hs.inFlight_running (mem_inFlight.2 ⟨f, hf, hc⟩)
    exact hs.kernel.pid_ne_kernelPid (hs.lookup_of_names (Or.inr (Or.inr ⟨f, hf, Or.inr hc⟩)))
      (hs.kernel.ne_root_of_forker hq)
  waited hm hr hresult := by
    obtain ⟨b, -, -, hc⟩ := (hs.tells hp).waited hm hr hresult
    exact hs.collected_ne_kernelPid hp hc
  woken hw hresult := by
    obtain ⟨w, -, -, hc⟩ := (hs.tells hp).woken hw hresult
    exact hs.collected_ne_kernelPid hp hc

/-- The kernel's own block is taken under nobody, whatever the moves. -/
theorem Course.parent_root (hs : s.Course moves) (hlt : Kernel.root < s.kernel.blocks.size)
    (hp : (s.kernel.block Kernel.root).parent = none) (n : Nat) :
    ((s.after moves n).kernel.block Kernel.root).parent = none := by
  induction moves generalizing s n with
  | nil => rwa [after, List.take_nil, run_nil]
  | cons move moves ih =>
    cases n with
    | zero => rwa [after_zero]
    | succ n =>
      rw [after_succ]
      refine ih hs.next (Nat.lt_of_lt_of_le hlt hs.ascends_next.size) ?_ n
      rcases hs.permitted_or_ceases with ⟨h, hsound, hm, -⟩ | hceases
      · cases hsound.reparents hm hlt with
        | kept same => exact same.trans hp
        | linked forker links before after =>
          exact absurd rfl (hsound.kernel.ne_root_of_forker forker)
        | handed forker resigns after => exact absurd rfl (hsound.kernel.ne_root_of_forker forker)
      · exact (hceases.parent _ hlt).trans hp

/-- Before a shutdown the session is sound, and the next move permitted. -/
theorem Sound.after (hs : s.Sound h) (hl : s.lawful h (moves.takeWhile (!·.isShutdown)) = true)
    {n : Nat} (hn : n ≤ (moves.takeWhile (!·.isShutdown)).length) :
    ∃ g, (s.after moves n).Sound g ∧ (n < (moves.takeWhile (!·.isShutdown)).length →
      ∀ move, moves[n]? = some move → move.permitted (s.after moves n) g = true) := by
  induction moves generalizing s h n with
  | nil =>
    obtain rfl := Nat.le_zero.1 hn
    exact ⟨h, by rwa [after_zero], nofun⟩
  | cons move moves ih =>
    cases hm : move.isShutdown with
    | true =>
      rw [List.takeWhile_cons_of_neg (by rw [hm]; exact Bool.false_ne_true)] at hn ⊢
      obtain rfl := Nat.le_zero.1 hn
      exact ⟨h, by rwa [after_zero], nofun⟩
    | false =>
      rw [List.takeWhile_cons_of_pos (by rw [hm]; rfl)] at hl hn ⊢
      obtain ⟨hp, hrest⟩ := Bool.and_eq_true_iff.1 hl
      cases n with
      | zero =>
        refine ⟨h, by rwa [after_zero], fun _ m hget => ?_⟩
        cases hget
        rwa [after_zero]
      | succ n =>
        rw [after_succ, hs.run_cons, run_nil]
        obtain ⟨g, hsound, hnext⟩ := ih (hs.next hp) hrest (Nat.le_of_succ_le_succ hn)
        refine ⟨g, hsound, fun hlt m hget => hnext (Nat.lt_of_succ_lt_succ hlt) m ?_⟩
        rwa [List.getElem?_cons_succ] at hget

/-! ### Careers -/

/-- How the processes of a run come on. -/
structure Careers (s : Session) (moves : List Move) : Prop where
  orderly : ∀ n, ∀ b < (s.after moves n).kernel.blocks.size,
    ((s.after moves n).kernel.block b).Orderly
  /-- No block is lost and no flag falls; a status is written as its process exits. -/
  ascends : ∀ m n, m ≤ n → ∀ b < (s.after moves m).kernel.blocks.size,
    b < (s.after moves n).kernel.blocks.size ∧
      ((s.after moves m).kernel.block b).Ascends ((s.after moves n).kernel.block b)
  state : ∀ m n, m ≤ n → ∀ b < (s.after moves m).kernel.blocks.size,
    ((s.after moves m).kernel.block b).state.LeadsTo ((s.after moves n).kernel.block b).state
  /-- No second move writes a status. -/
  written : ∀ m n, m < n → ∀ b < (s.after moves m).kernel.blocks.size,
    ((s.after moves (m + 1)).kernel.block b).code ≠ ((s.after moves m).kernel.block b).code →
      ((s.after moves (n + 1)).kernel.block b).code = ((s.after moves n).kernel.block b).code
  fostered : ∀ b ≠ Kernel.root, ∃ forker linked left, s.Fostered moves b forker linked left
  /-- Whoever is given a child has not begun to exit. -/
  attended : ∀ n p, ∀ c ∈ (s.after moves (n + 1)).kernel.childBlocks p,
    c ∉ (s.after moves n).kernel.childBlocks p →
      ∃ q, (s.after moves (n + 1)).kernel.pids.lookup p = some q ∧
        ((s.after moves (n + 1)).kernel.block q).exiting = false
  parentless : ∀ n, ((s.after moves n).kernel.block Kernel.root).parent = none
  enthroned : ∀ n ≤ (moves.takeWhile (!·.isShutdown)).length, (s.after moves n).Enthroned
  spares : ∀ n < (moves.takeWhile (!·.isShutdown)).length, ∀ move, moves[n]? = some move →
    (s.after moves n).Spares move

/-- In any run whose moves are permitted up to a shutdown the careers of processes go one way. -/
theorem careers_of_run {config : Config} {refusal : Option Errno}
    (hb : boot config refusal = .ok s)
    (hl : s.lawful [] (moves.takeWhile (!·.isShutdown)) = true) : s.Careers moves := by
  have hs := course_boot hb hl
  have hsound := (sound_boot hb).1
  have hsize := (size_boot hb).1
  have hord := hsound.kernel.ordered
  have hascends : ∀ m n, m ≤ n → ∀ b < (s.after moves m).kernel.blocks.size,
      b < (s.after moves n).kernel.blocks.size ∧
        ((s.after moves m).kernel.block b).Ascends ((s.after moves n).kernel.block b) :=
    fun m n hmn b hb => hs.ascends_after hmn hb
  refine ⟨fun n b hb => hs.orderly_after (fun b _ => ⟨hord.exiting b, hord.exited b⟩) n hb,
    hascends, fun m n hmn b hb => (hascends m n hmn b hb).2.state, fun m n hmn b hb hcode => ?_,
    fun b hroot => hs.fostered fun hlt => absurd (Nat.lt_one_iff.1 (hsize ▸ hlt)) hroot,
    fun n p c hc hnew => ?_, hs.parent_root hord.root_lt hord.root_parent, fun n hn => ?_,
    fun n hn move hget => ?_⟩
  · -- the process has exited in the first of the moves
    obtain ⟨hlt, hfirst⟩ := hascends m (m + 1) (Nat.le_succ m) b hb
    obtain ⟨hlt', hbetween⟩ := hascends (m + 1) n hmn b hlt
    have hexited : ((s.after moves (m + 1)).kernel.block b).exited = true :=
      Bool.not_eq_false _ ▸ fun he => hcode (hfirst.code (Or.inr he))
    exact (hascends n (n + 1) (Nat.le_succ n) b hlt').2.code (Or.inl (hbetween.exited hexited))
  · by_cases hn : n < moves.length
    · have hrest := hs.rest n
      rw [List.drop_eq_getElem_cons hn] at hrest
      have hstep : s.after moves (n + 1) = (s.after moves n).run [moves[n]] := by
        rw [Session.after, Session.after, ← run_append, List.take_concat_get' _ _ hn]
      rw [hstep] at hc ⊢
      exact hrest.attended hc hnew
    · have hle := Nat.le_of_not_lt hn
      rw [Session.after, List.take_of_length_le (Nat.le_succ_of_le hle)] at hc
      rw [Session.after, List.take_of_length_le hle] at hnew
      exact absurd hc hnew
  · obtain ⟨g, hafter, -⟩ := hsound.after hl hn
    exact hafter.enthroned
  · obtain ⟨g, hafter, hnext⟩ := hsound.after hl (Nat.le_of_lt hn)
    exact hafter.spares (hnext hn move hget)

/-- A child is linked in the ninth move and handed to the kernel in the eighteenth, where its
forker exits; another is a zombie until it is waited for. The table is shut down in the end. -/
theorem careers_of_two_children : ∃ s : Session, ∃ moves : List Move,
    boot { maxProcesses := 8 } none = .ok s ∧
      s.lawful [] (moves.takeWhile (!·.isShutdown)) = true ∧
      ((List.range 21).map fun n => ((s.after moves n).kernel.block 2).parent) =
        List.replicate 9 (some 0) ++ List.replicate 9 (some 1) ++ List.replicate 3 (some 0) ∧
      [15, 16, 17].map (fun n => ((s.after moves n).kernel.block 3).state) =
        [.running, .zombie, .reaped] ∧
      [17, 18].map (fun n => ((s.after moves n).kernel.block 1).state) = [.running, .reaped] ∧
      s.Careers moves := by
  let moves : List Move :=
    [.fork 0 .context, .resume none, .resume none, .resume none, .resume none,
      .fork 1 .context, .resume none, .resume none, .resume none, .resume none,
      .fork 1 .context, .resume none, .resume none, .resume none, .resume none,
      .exit 3 ⟨.exited, 3⟩, .wait 1 3 0 .context none, .exit 1 ⟨.exited, 0⟩,
      .exit 2 ⟨.exited, 0⟩, .shutdown]
  obtain ⟨s, hb, hl, hparent, hthird, hfirst⟩ : ∃ s : Session,
      boot { maxProcesses := 8 } none = .ok s ∧
        s.lawful [] (moves.takeWhile (!·.isShutdown)) = true ∧
        ((List.range 21).map fun n => ((s.after moves n).kernel.block 2).parent) =
          List.replicate 9 (some 0) ++ List.replicate 9 (some 1) ++ List.replicate 3 (some 0) ∧
        [15, 16, 17].map (fun n => ((s.after moves n).kernel.block 3).state) =
          [.running, .zombie, .reaped] ∧
        [17, 18].map (fun n => ((s.after moves n).kernel.block 1).state) = [.running, .reaped] :=
    ⟨_, rfl, by decide +kernel⟩
  exact ⟨s, moves, hb, hl, hparent, hthird, hfirst, careers_of_run hb hl⟩

end Session

end Lifecycle
