import Lifecycle.Proofs.Session.Reckoning
import Lifecycle.Proofs.Session.Tallying
import Lifecycle.Proofs.Session.Tree

/-! What is left when everybody has exited. In an orderly run processes fork, exit and wait, and
no call comes while a fork is stopped. A zombie has a parent that runs then, so once no process
runs there is no zombie either, and nothing but the kernel's own block. -/

namespace Lifecycle

/-- Whether a move is a call of a process that forks, exits or waits, or one with references,
while no fork is stopped; or what the stopped fork does next. -/
def Move.orderly (s : Session) : Move → Bool
  | .resume _ => true
  | .create _ _ => false
  | .overRelease _ => false
  | .shutdown => false
  | _ => s.frames.isEmpty

namespace Session

def orderly (s : Session) : List Move → Bool
  | [] => true
  | move :: moves => move.orderly s && (s.step move).2.2.orderly moves

/-- Nothing is left but the kernel. -/
structure Vacant (s : Session) : Prop where
  installed : s.kernel.installed = [Kernel.root]
  childless : ∀ p, s.kernel.family.childrenOf p = []
  awake : s.parked = []
  zombies : s.kernel.stats.zombies = 0
  tasks : s.kernel.host.liveTasks = 1
  created : s.kernel.host.counters.created = s.kernel.host.counters.destroyed + 1
  spawned : s.kernel.host.counters.spawned = s.kernel.host.counters.terminated

/-- What a fork stands on when nothing has come in between: somebody beside it counts on its
parent, and its child is the newest block. -/
def Undisturbed (s : Session) : Pending → Prop
  | .create _ _ => False
  | .forkTask parent _ => (s.kernel.block parent).reaped = false ∨ s.refs parent ≠ 0
  | .forkSpace _ child => s.kernel.blocks.size = child + 1
  | .forkFiles _ child => s.kernel.blocks.size = child + 1
  | .forkThread _ child => s.kernel.blocks.size = child + 1

/-- The sessions that orderly moves lead to. -/
structure Orderly (s : Session) (h : List Event) : Prop where
  forked : ∀ b < s.kernel.blocks.size, b ≠ Kernel.root → ∃ q, forkerOf h b = some q
  unawaited : (s.kernel.block Kernel.root).waiter = false
  frames : s.frames = [] ∨ ∃ f, s.frames = [f] ∧ s.Undisturbed f.pending

variable {s : Session} {h : List Event}

namespace Orderly

variable (o : s.Orderly h) (hs : s.Sound h)
include o hs

/-- No block but one that a fork made has been given back. -/
theorem not_surrendered (b : BlockId) : .surrendered b ∉ h := by
  intro hm
  obtain ⟨hlt, hroot, hnone⟩ := hs.kernel.kindred.given (List.contains_iff_mem.2 hm)
  obtain ⟨q, hq⟩ := o.forked b hlt hroot
  cases hnone.symm.trans hq

theorem permitted {move : Move} (hm : move.orderly s = true) : move.permitted s h = true := by
  cases move with
  | create name slot => cases hm
  | overRelease slot => cases hm
  | shutdown => cases hm
  | release slot =>
    unfold Move.permitted
    dsimp only
    split
    · next b hb =>
      obtain ⟨hlt, hroot, hnone⟩ := hs.ready.bare hb
      obtain ⟨q, hq⟩ := o.forked b hlt hroot
      cases hnone.symm.trans hq
    · rfl
  | _ => rfl

/-- The next session is orderly if its new blocks are forked and its forks undisturbed. -/
theorem next {move : Move} (hp : move.permitted s h = true)
    (hnew : ∀ b, s.kernel.blocks.size ≤ b → b < (s.step move).2.2.kernel.blocks.size →
      ∃ q, forkerOf (h ++ s.events move) b = some q)
    (hframes : (s.step move).2.2.frames = [] ∨ ∃ f, (s.step move).2.2.frames = [f] ∧
      (s.step move).2.2.Undisturbed f.pending) :
    (s.step move).2.2.Orderly (h ++ s.events move) where
  forked b hb hroot := by
    rcases Nat.lt_or_ge b s.kernel.blocks.size with hlt | hge
    · rw [hs.forkerOf_step hp hlt]
      exact o.forked b hlt hroot
    · exact hnew b hge hb
  unawaited := by
    obtain ⟨heffect, hsound⟩ := hs.act hp
    have hburies : (s.act move).2.kernel.Buries (s.step move).2.2.kernel :=
      hsound.settle.1.buries
    rw [hburies.waiter]
    refine Bool.eq_false_iff.2 fun hw => ?_
    rcases (hs.waiter_act heffect Kernel.root).1 hw with hw | ⟨caller, hc⟩
    · cases o.unawaited.symm.trans hw
    · cases hs.kernel.ordered.root_parent.symm.trans (hs.commits heffect hc).parent
  frames := hframes

end Orderly

/-! ### Steps -/

theorem Effect.size_eq {move : Move} {es : List Event} {k' : Kernel} (he : s.Effect h move es k')
    (hm : ∀ refusal, move ≠ .resume refusal) : k'.blocks.size = s.kernel.blocks.size := by
  cases he with
  | quiet quiet => exact quiet.size
  | surrendered free quiet => exact quiet.size
  | left found forker running landed size core => exact size
  | slept named found parent waiter reaped exited quiet =>
    exact quiet.size.trans (Kernel.size_update ..)
  | collected named found parent waiter reaped exited quiet =>
    exact quiet.size.trans (Kernel.size_update ..)
  | _ => exact absurd rfl (hm _)

/-- A fork finds its parent counted on by somebody. -/
theorem Sound.counted_on (hs : s.Sound h) (hw : s.Watched) (hf : s.frames = []) {pid : Pid}
    {q : BlockId} (hl : s.kernel.pids.lookup pid = some q) :
    (s.kernel.block q).reaped = false ∨ s.refs q ≠ 0 := by
  refine or_iff_not_imp_left.2 fun hr => ?_
  have hr := eq_true_of_ne_false hr
  have hforks : s.forks q = 0 := by rw [forks, hf, List.countP_nil]
  have hasleep : s.sleepers q = 0 := by
    rw [hw q, if_neg]
    rintro ⟨hrunning, -⟩
    cases ((Block.state_eq_running_iff _).1 hrunning).1.symm.trans hr
  have hcount := hs.kernel.counted.count q (hs.kernel.placed.own hl).1
  have hheld := hs.kernel.counted.counted hl
  rw [hcount, hr, account] at hheld
  simpa [hforks, hasleep] using hheld

/-- A fork that stops has its parent counted on. -/
theorem Sound.step_fork (hs : s.Sound h) (hd : s.Settled) (hw : s.Watched) (hf : s.frames = [])
    (pid : Pid) (via : Via) : (s.step (.fork pid via)).2.2.frames = [] ∨
      ∃ f, (s.step (.fork pid via)).2.2.frames = [f] ∧
        (s.step (.fork pid via)).2.2.Undisturbed f.pending := by
  unfold Session.step
  dsimp only
  rw [frames_settle]
  unfold Session.act
  dsimp only
  split
  · exact Or.inl hf
  · rcases hs.kernel.beginFork pid with ⟨error, k', hk, -⟩ | ⟨q, p, k', hk, hl, hq, -⟩
    · rw [hk]
      exact Or.inl hf
    · rw [hk]
      have hsettled : Settled { s with
          kernel := k', frames := [⟨.forkTask q p, .fork via (s.forkContext? via pid)⟩] } :=
        fun w hm => by
          rw [isDue, hq.state]
          exact hd w hm
      refine Or.inr ⟨⟨.forkTask q p, .fork via (s.forkContext? via pid)⟩, ?_, ?_⟩
      · simp only [proceed, hf]
      · simp only [proceed, hf]
        rw [settle_of_settled hsettled]
        change (k'.block q).reaped = false ∨ s.refs q ≠ 0
        rw [hq.reaped]
        exact hs.counted_on hw hf hl

/-- A fork that nothing has come in between of stops with the newest block for its child, which
is half-forked if it was made just now. -/
theorem undisturbed_resume {a : Account} {pending next : Pending} {k' : Kernel}
    (hu : s.Undisturbed pending) (hw : s.kernel.Resumed a pending (.stopped next) k') :
    ∃ c, next.child? = some c ∧ k'.blocks.size = c + 1 ∧
      (c < s.kernel.blocks.size ∨ c = s.kernel.blocks.size ∧ next.half? = some c) := by
  cases hw with
  | born blocks => exact ⟨_, rfl, Kernel.size_of_add blocks, Or.inr ⟨rfl, rfl⟩⟩
  | copied quiet => exact ⟨_, rfl, quiet.size.trans hu, Or.inl (Nat.lt_of_succ_le hu.ge)⟩
  | linked running quiet =>
    have hsize := quiet.size.trans (Kernel.size_update ..)
    exact ⟨_, rfl, hsize.trans hu, Or.inl (Nat.lt_of_succ_le hu.ge)⟩

/-- When it is over, no block has been made. -/
theorem size_resume {a : Account} {pending : Pending} {progress : Progress} {k' : Kernel}
    (hu : s.Undisturbed pending) (hw : s.kernel.Resumed a pending progress k')
    (hn : ∀ next, progress ≠ .stopped next) : k'.blocks.size = s.kernel.blocks.size := by
  cases hw with
  | refused childless quiet => exact quiet.size
  | created blocks => exact hu.elim
  | started quiet => exact quiet.size
  | unwound carried quiet => exact quiet.size.trans (Kernel.size_update ..)
  | _ => exact absurd rfl (hn _)

theorem undisturbed_of_child {t : Session} {pending : Pending} {c : BlockId}
    (hc : pending.child? = some c) (hn : t.kernel.blocks.size = c + 1) :
    t.Undisturbed pending := by
  cases pending <;> cases hc <;> exact hn

theorem Orderly.step_resume (o : s.Orderly h) (hs : s.Sound h) (refusal : Option Errno) :
    (s.step (.resume refusal)).2.2.Orderly (h ++ s.events (.resume refusal)) := by
  have hnext : (s.step (.resume refusal)).2.2.Sound (h ++ s.events (.resume refusal)) :=
    hs.next rfl
  have hsize : (s.step (.resume refusal)).2.2.kernel.blocks.size =
      (s.act (.resume refusal)).2.kernel.blocks.size := size_settle _
  have hframes : (s.step (.resume refusal)).2.2.frames = (s.act (.resume refusal)).2.frames :=
    frames_settle _
  rcases o.frames with hf | ⟨f, hf, hu⟩
  · rw [act_resume_of_nil hf] at hsize hframes
    exact o.next hs rfl (fun b hge hlt => absurd (hsize ▸ hlt) (Nat.not_lt.2 hge))
      (Or.inl (hframes.trans hf))
  · have hw := (hs.load hf).resume rfl (hs.fits hf) refusal
    rw [act_resume_of_cons hf, (quiet_proceed ..).size] at hsize
    rw [act_resume_of_cons hf, frames_proceed] at hframes
    dsimp only at hw hsize hframes
    generalize s.kernel.resume f.pending refusal = out at hw hsize hframes
    obtain ⟨progress, k'⟩ := out
    dsimp only at hw hsize hframes
    by_cases hn : ∃ next, progress = .stopped next
    · obtain ⟨next, rfl⟩ := hn
      obtain ⟨c, hc, hnewest, hmade⟩ := undisturbed_resume hu hw
      refine o.next hs rfl (fun b hge hlt => ?_)
        (Or.inr ⟨_, hframes, undisturbed_of_child hc (hsize.trans hnewest)⟩)
      rw [hsize, hnewest] at hlt
      have hle : b ≤ c := Nat.le_of_lt_succ hlt
      obtain ⟨rfl, hhalf⟩ : b = c ∧ next.half? = some c := by
        rcases hmade with hold | ⟨hold, hhalf⟩
        · exact absurd (Nat.lt_of_le_of_lt hle hold) (Nat.not_lt.2 hge)
        · exact ⟨Nat.le_antisymm hle (hold ▸ hge), hhalf⟩
      have hin : ⟨next, f.purpose⟩ ∈ (s.step (.resume refusal)).2.2.frames := by
        rw [hframes]
        exact List.mem_cons_self
      exact (hnext.kernel.kindred.half b (mem_halfForked.2 ⟨_, hin, hhalf⟩)).1
    · have hover : ∀ next, progress ≠ .stopped next := fun next he => hn ⟨next, he⟩
      rw [size_resume hu hw hover] at hsize
      refine o.next hs rfl (fun b hge hlt => absurd (hsize ▸ hlt) (Nat.not_lt.2 hge)) (Or.inl ?_)
      split at hframes
      · exact absurd rfl (hover _)
      · exact hframes

theorem Orderly.step (o : s.Orderly h) (hs : s.Sound h) (hd : s.Settled) (hw : s.Watched)
    {move : Move} (hm : move.orderly s = true) :
    (s.step move).2.2.Orderly (h ++ s.events move) := by
  have hp := o.permitted hs hm
  by_cases hr : ∃ refusal, move = .resume refusal
  · obtain ⟨refusal, rfl⟩ := hr
    exact o.step_resume hs refusal
  have hsize : (s.step move).2.2.kernel.blocks.size = s.kernel.blocks.size :=
    (size_settle _).trans ((hs.act hp).effect.size_eq fun refusal he => hr ⟨refusal, he⟩)
  have hframes : (s.step move).2.2.frames = (s.act move).2.frames := frames_settle _
  refine o.next hs hp (fun b hge hlt => absurd (hsize ▸ hlt) (Nat.not_lt.2 hge)) ?_
  cases move with
  | fork pid via => exact hs.step_fork hd hw (List.isEmpty_iff.1 hm) pid via
  | resume refusal => exact absurd ⟨refusal, rfl⟩ hr
  | create name slot => cases hm
  | overRelease slot => cases hm
  | shutdown => cases hm
  | _ => exact Or.inl (hframes.trans ((frames_act id).trans (List.isEmpty_iff.1 hm)))

/-- A child in flight is the newest block. -/
theorem Orderly.newest (o : s.Orderly h) {c : BlockId} (hc : c ∈ s.inFlight) :
    s.kernel.blocks.size = c + 1 := by
  obtain ⟨f, hf, hp⟩ := mem_inFlight.1 hc
  rcases o.frames with hn | ⟨g, hg, hu⟩
  · rw [hn] at hf
    cases hf
  · rw [hg] at hf
    obtain rfl := List.mem_singleton.1 hf
    generalize f.pending = pending at hp hu
    cases pending <;> cases hp <;> exact hu

/-- In an orderly run no move strands a child: one whose fork fails has none. -/
theorem Orderly.strands_eq (o : s.Orderly h) (hs : s.Sound h) (ht : s.Tree h) {move : Move}
    (hp : move.permitted s h = true)
    (ho : (s.step move).2.2.Orderly (h ++ s.events move)) : s.strands move = false := by
  refine Bool.eq_false_iff.2 fun hn => ?_
  obtain ⟨hm, c, hc, hr, q, hlt, hpar, hattends, hgone⟩ := strands_iff.1 hn
  have hq : q ≠ Kernel.root := by
    rintro rfl
    rw [(hs.next hp).kernel.attends_root] at hgone
    cases hgone
  have hforker := ht.forker_eq hs hc ((hs.ages_step hp).unreaped hc hr) hpar hattends hq
  rcases hs.vanishes_by hp hm hlt hattends hgone with ⟨hflight, -⟩ | hgiven
  · have hyounger := (hs.kernel.kindred.born hforker).1
    rw [o.newest hflight] at hc
    exact absurd hyounger (Nat.not_lt.2 (Nat.le_of_lt_succ hc))
  · exact ho.not_surrendered (hs.next hp) q hgiven

/-! ### Runs -/

/-- What an orderly run keeps. -/
structure Regular (s : Session) (h : List Event) : Prop where
  sound : s.Sound h
  settled : s.Settled
  watched : s.Watched
  reckoned : s.Reckoned
  orderly : s.Orderly h
  tree : s.Tree h

theorem Regular.step (r : s.Regular h) {move : Move} (hm : move.orderly s = true) :
    (s.step move).2.2.Regular (h ++ s.events move) := by
  have hp := r.orderly.permitted r.sound hm
  have ho := r.orderly.step r.sound r.settled r.watched hm
  exact {
    sound := r.sound.next hp
    settled := settled_settle _
    watched := r.sound.watched_step r.watched hp
    reckoned := r.sound.reckoned_step r.watched r.reckoned hp
    orderly := ho
    tree := r.sound.tree_step r.tree hp (r.orderly.strands_eq r.sound r.tree hp ho)
  }

/-- An orderly run is lawful. -/
theorem Regular.run (r : s.Regular h) {moves : List Move} (hm : s.orderly moves = true) :
    s.lawful h moves = true ∧ (s.run moves).Regular (s.history h moves) := by
  induction moves generalizing s h with
  | nil => exact ⟨rfl, r⟩
  | cons move moves ih =>
    obtain ⟨hmove, hrest⟩ := Bool.and_eq_true_iff.1 hm
    have hp := r.orderly.permitted r.sound hmove
    obtain ⟨hl, hr⟩ := ih (r.step hmove) hrest
    rw [r.sound.run_cons]
    exact ⟨Bool.and_eq_true_iff.2 ⟨hp, hl⟩, hr⟩

theorem regular_boot {config : Config} {refusal : Option Errno} (hb : boot config refusal = .ok s) :
    s.Regular [] := by
  obtain ⟨hs, hd⟩ := sound_boot hb
  obtain ⟨hsize, hwaiter⟩ := size_boot hb
  obtain ⟨k, -, rfl⟩ := boot_eq hb
  refine ⟨hs, hd, fun b => ?_, fun b hz => ?_, ⟨fun b hb hroot => ?_, hwaiter _, Or.inl rfl⟩,
    hs.tree_of_size hsize⟩
  · rw [if_neg fun hc => Bool.false_ne_true ((hwaiter b).symm.trans hc.2)]
    rfl
  · have hexited := ((Block.state_eq_zombie_iff _).1 hz).2
    have hexiting := hs.kernel.ordered.exiting b hexited
    obtain ⟨q, hq⟩ := hs.kernel.kindred.forked hexiting
    cases hq
  · exact absurd (Nat.lt_one_iff.1 (hsize ▸ hb)) hroot

/-! ### Nobody runs -/

namespace Regular

variable (r : s.Regular h) (hrefs : ∀ b, s.refs b = 0)
  (hstopped : ∀ {p b}, s.kernel.pids.lookup p = some b → b ≠ Kernel.root →
    (s.kernel.block b).state ≠ .running)
include r hrefs hstopped

/-- A stopped fork holds nobody that is reaped. -/
theorem forks_eq_zero {b : BlockId} (hr : (s.kernel.block b).reaped = true) : s.forks b = 0 := by
  refine List.countP_eq_zero.2 fun f hf hb => ?_
  have hparent := beq_iff_eq.1 hb
  have hu : s.Undisturbed f.pending := by
    rcases r.orderly.frames with hn | ⟨g, hg, hu⟩
    · rw [hn] at hf
      cases hf
    · rw [hg] at hf
      exact List.mem_singleton.1 hf ▸ hu
  cases hc : f.pending.child? with
  | some c =>
    -- a child in flight would run
    obtain ⟨⟨q, hq⟩, he⟩ := r.sound.inFlight_running (mem_inFlight.2 ⟨f, hf, hc⟩)
    have hl := r.sound.lookup_of_names (Or.inr (Or.inr ⟨f, hf, Or.inr hc⟩))
    exact hstopped hl (r.sound.kernel.ne_root_of_forker hq) ((Block.state_eq_running_iff _).2
      ⟨r.sound.kernel.reaped_of_not_exiting he, r.sound.kernel.exited_of_not_exiting he⟩)
  | none =>
    generalize f.pending = pending at hparent hu hc
    cases pending with
    | create pid name => exact hu
    | forkTask parent pid =>
      obtain rfl := Option.some.inj hparent
      rcases hu with hu | hu
      · cases hr.symm.trans hu
      · exact hu (hrefs _)
    | _ => cases hc

/-- A zombie would have a parent that runs. -/
theorem eq_root {p : Pid} {b : BlockId} (hl : s.kernel.pids.lookup p = some b) :
    b = Kernel.root := by
  have hs := r.sound.kernel
  refine by_contra fun hroot => ?_
  have hstate := hstopped hl hroot
  have hlt := (hs.placed.own hl).1
  cases hr : (s.kernel.block b).reaped with
  | true =>
    have hcount := hs.counted.count b hlt
    have hasleep : s.sleepers b = 0 := by rw [r.watched b, if_neg fun hc => hstate hc.1]
    have hforks := r.forks_eq_zero hrefs hstopped hr
    rw [hr, Bool.true_or, if_pos rfl, account] at hcount
    refine hs.counted.counted hl (hcount.trans ?_)
    dsimp only
    rw [hrefs, hasleep, hforks]
  | false =>
    have hzombie : (s.kernel.block b).state = .zombie := (Block.state_eq_zombie_iff _).2
      ⟨hr, Bool.of_not_eq_false fun hx => hstate ((Block.state_eq_running_iff _).2 ⟨hr, hx⟩)⟩
    obtain ⟨q, hparent, hattends, -⟩ := r.tree.tended hl hroot
      ((Block.state_ne_reaped_iff _).2 hr)
    obtain ⟨hq, he⟩ := Kernel.attends_iff.1 hattends
    refine hstopped hq (fun hqroot => ?_) ((Block.state_eq_running_iff _).2
      ⟨hs.reaped_of_not_exiting he, hs.exited_of_not_exiting he⟩)
    rw [hqroot, hs.ordered.root_pid] at hparent
    exact (r.reckoned b hzombie).2 hparent

theorem vacant {work : List HostCall} (m : s.Manned h work) (hi : s.kernel.Intact s.taken) :
    s.Vacant := by
  have hs := r.sound.kernel
  have honly : ∀ {p b}, s.kernel.pids.lookup p = some b → b = Kernel.root :=
    fun hl => r.eq_root hrefs hstopped hl
  have hinstalled : s.kernel.installed = [Kernel.root] := by
    refine List.perm_singleton.1 ((List.perm_ext_iff_of_nodup hs.placed.nodup_installed
      (List.nodup_singleton _)).2 fun b => ?_)
    rw [hs.placed.mem_installed, List.mem_singleton]
    refine ⟨honly, ?_⟩
    rintro rfl
    rw [hs.ordered.root_pid]
    exact hs.lookup_root
  have hsize : s.kernel.host.tasks.size = 1 := by rw [hi.size_tasks, hinstalled]; rfl
  exact {
    installed := hinstalled
    childless := fun p => List.eq_nil_iff_forall_not_mem.2 fun c hc => by
      obtain ⟨b, q, hb, -, hparent, -⟩ := hs.kindred.linked ((hs.kindred.family.mirror c p).2 hc)
      rw [honly hb, hs.ordered.root_parent] at hparent
      cases hparent
    awake := List.eq_nil_iff_forall_not_mem.2 fun w hw => by
      have hroot := honly (r.sound.lookup_of_names (Or.inr (Or.inl ⟨w, hw, rfl⟩)))
      have hwaiter := r.watched.waiter hw
      rw [hroot, r.orderly.unawaited] at hwaiter
      cases hwaiter
    zombies := by
      have hroot : (s.kernel.block Kernel.root).state = .running :=
        (Block.state_eq_running_iff _).2 ⟨hs.reaped_of_not_exiting hs.exiting_root,
          hs.exited_of_not_exiting hs.exiting_root⟩
      simp [Kernel.stats, hinstalled, hroot]
    tasks := hsize
    created := hsize ▸ m.staffed.counted.created
    spawned := by
      have hnobody : s.workers h = ∅ := Finset.eq_empty_of_forall_notMem fun b hb => by
        obtain ⟨⟨hforked, -⟩, he⟩ := r.sound.mem_workers.1 hb
        obtain ⟨q, hq⟩ := Option.isSome_iff_exists.1 hforked
        have hr : (s.kernel.block b).reaped = false := Bool.eq_false_iff.2 fun hr =>
          Bool.false_ne_true (he.symm.trans (hs.ordered.exited b hr))
        exact hs.ne_root_of_forker hq (honly (hs.lookup_of_forker hq hr))
      rw [m.staffed.spawned, m.staffed.terminated, m.employs.balanced, hnobody]
      rfl
  }

end Regular

/-- Once every process of an orderly run has exited, and no reference is held, nothing is left
but the kernel. -/
theorem vacant_of_exits {config : Config} {refusal : Option Errno} {moves : List Move}
    (hb : boot config refusal = .ok s) (hm : s.orderly moves = true)
    (hrefs : ∀ b, (s.run moves).refs b = 0)
    (hstopped : ∀ b ∈ (s.run moves).kernel.installed, b ≠ Kernel.root →
      ((s.run moves).kernel.block b).state ≠ .running) : (s.run moves).Vacant := by
  obtain ⟨hl, r⟩ := (regular_boot hb).run hm
  obtain ⟨work, m⟩ := manned_run hb hl
  refine r.vacant hrefs (fun {p b} hb => hstopped b ?_) m (intact_run hb hl)
  exact r.sound.kernel.placed.mem_installed.2 (r.sound.kernel.lookup_of_installed hb)

/-- A child is collected by a sleeper, another is left a zombie and reaped with its parent, a
third goes under the kernel, and a fork fails. -/
theorem vacant_of_exits_in_disorder : ∃ s : Session, ∃ moves : List Move,
    boot { maxProcesses := 8 } none = .ok s ∧ s.orderly moves = true ∧
      (∀ b, (s.run moves).refs b = 0) ∧
      (∀ b ∈ (s.run moves).kernel.installed, b ≠ Kernel.root →
        ((s.run moves).kernel.block b).state ≠ .running) ∧
      (s.run moves).Vacant := by
  let moves : List Move :=
    [.fork 0 .context, .resume none, .resume none, .resume none, .resume none,
      .fork 1 .context, .resume none, .resume none, .resume none, .resume none,
      .fork 1 .context, .resume none, .resume none, .resume none, .resume none,
      .fork 1 .context, .resume none, .resume none, .resume none, .resume none,
      .fork 1 .context, .resume none, .resume none, .resume (some .enomem),
      .wait 1 2 0 .context none, .exit 2 ⟨.exited, 7⟩, .get 3 0, .exit 3 ⟨.exited, 0⟩,
      .exit 1 ⟨.exited, 0⟩, .drop 0, .exit 4 ⟨.signaled, 9⟩]
  obtain ⟨s, hb, hm, hslots, hstopped⟩ : ∃ s : Session,
      boot { maxProcesses := 8 } none = .ok s ∧ s.orderly moves = true ∧
        (s.run moves).slots.entries = [] ∧
        ∀ b ∈ (s.run moves).kernel.installed, b ≠ Kernel.root →
          ((s.run moves).kernel.block b).state ≠ .running := ⟨_, rfl, by decide +kernel⟩
  have hrefs : ∀ b, (s.run moves).refs b = 0 := fun b => by rw [refs, hslots, List.countP_nil]
  exact ⟨s, moves, hb, hm, hrefs, hstopped, vacant_of_exits hb hm hrefs hstopped⟩

end Session

end Lifecycle
