import Lifecycle.Proofs.Kernel.Staffing
import Lifecycle.Proofs.Session.Perishing
import Lifecycle.Proofs.Session.Siblings
import Mathlib.Data.Finset.Card

/-! Who works in a session. The kernel and every forked process have a thread attached to their
task from the link until they leave; a thread is started for each process whose fork is
complete, and terminated when it exits. Each move moves at most one process between these
states. -/

namespace Lifecycle

/-- The child of a fork that has stopped. -/
def Progress.child? : Progress → Option BlockId
  | .stopped pending => pending.child?
  | _ => none

def Progress.half? : Progress → Option BlockId
  | .stopped pending => pending.half?
  | _ => none

/-- Whether a fork or creation may stop in a move. -/
def Move.stops : Move → Prop
  | .fork _ _ => True
  | .create _ _ => True
  | .resume _ => True
  | _ => False

namespace Session

variable {s s' : Session} {h h' : List Event} {work : List HostCall} {busy : Prop}
  {ds : List Release}

/-- A process whose fork is over. -/
def Landed (s : Session) (h : List Event) (b : BlockId) : Prop :=
  (forkerOf h b).isSome = true ∧ b ∉ s.inFlight

/-- A process whose fork succeeded and that has not exited. -/
def Works (s : Session) (h : List Event) (b : BlockId) : Prop :=
  s.Landed h b ∧ (s.kernel.block b).exited = false

instance (s : Session) (h : List Event) : DecidablePred (s.Works h) := fun _ =>
  inferInstanceAs (Decidable ((_ ∧ _) ∧ _))

def workers (s : Session) (h : List Event) : Finset BlockId :=
  (Finset.range s.kernel.blocks.size).filter (s.Works h)

/-- Threads are started for processes whose fork is over, and terminated when those exit. -/
structure Employs (s : Session) (h : List Event) (work : List HostCall) : Prop where
  started : ∀ t, .spawn t none ∈ work →
    ∃ b < s.kernel.blocks.size, (s.kernel.block b).task = t ∧ s.Landed h b
  running : ∀ b, s.Works h b → .spawn (s.kernel.block b).task none ∈ work
  balanced : work.countP HostCall.isStart =
    work.countP HostCall.isTermination + (s.workers h).card

/-- The threads attached to tasks are those of the kernel and of the processes between their
link and their exit, and the threads started and ended are those in `work`. -/
structure Manned (s : Session) (h : List Event) (work : List HostCall) : Prop where
  staffed : s.kernel.Staffed (s.kernel.roster (s.account h)) work
  employs : s.Employs h work

/-! ### Workers -/

theorem Sound.mem_workers (hs : s.Sound h) {b : BlockId} : b ∈ s.workers h ↔ s.Works h b := by
  refine ⟨fun hb => (Finset.mem_filter.1 hb).2, fun hb => Finset.mem_filter.2 ⟨?_, hb⟩⟩
  obtain ⟨q, hq⟩ := Option.isSome_iff_exists.1 hb.1.1
  exact Finset.mem_range.2 (hs.forker_lt hq)

theorem Sound.task_of_works (hs : s.Sound h) (hd : s.Comes busy ds s') {b : BlockId}
    (hb : s.Works h b) : (s'.kernel.block b).task = (s.kernel.block b).task := by
  obtain ⟨q, hq⟩ := Option.isSome_iff_exists.1 hb.1.1
  exact hd.task (hs.forker_lt hq)

theorem Employs.landed (e : s.Employs h work) (hd : s.Comes busy ds s')
    (hland : ∀ b, s.Landed h b → s'.Landed h' b) (t : TaskHandle) (ht : .spawn t none ∈ work) :
    ∃ b < s'.kernel.blocks.size, (s'.kernel.block b).task = t ∧ s'.Landed h' b := by
  obtain ⟨b, hb, hbt, hl⟩ := e.started t ht
  exact ⟨b, Nat.lt_of_lt_of_le hb hd.size_le, (hd.task hb).trans hbt, hland b hl⟩

/-- The same processes work as before. -/
theorem Employs.keep (e : s.Employs h work) (hs : s.Sound h) (hs' : s'.Sound h')
    (hd : s.Comes busy ds s') (hland : ∀ b, s.Landed h b → s'.Landed h' b)
    (hworks : ∀ b, s'.Works h' b ↔ s.Works h b) : s'.Employs h' work where
  started := e.landed hd hland
  running b hb := by
    have hb := (hworks b).1 hb
    rw [hs.task_of_works hd hb]
    exact e.running b hb
  balanced := by
    have hsame : s'.workers h' = s.workers h := by
      ext b
      rw [hs'.mem_workers, hs.mem_workers, hworks]
    rw [hsame]
    exact e.balanced

/-- One more process works, whose thread has been started. -/
theorem Employs.start (e : s.Employs h work) (hs : s.Sound h) (hs' : s'.Sound h')
    (hd : s.Comes busy ds s') (hland : ∀ b, s.Landed h b → s'.Landed h' b) {c : BlockId}
    (hc : c < s.kernel.blocks.size) (hnew : ¬s.Works h c)
    (hworks : ∀ b, s'.Works h' b ↔ b = c ∨ s.Works h b) :
    s'.Employs h' (.spawn (s.kernel.block c).task none :: work) where
  started t ht := by
    rcases List.mem_cons.1 ht with he | ht
    · obtain ⟨rfl, -⟩ := HostCall.spawn.inj he
      exact ⟨c, Nat.lt_of_lt_of_le hc hd.size_le, hd.task hc, ((hworks c).2 (Or.inl rfl)).1⟩
    · exact e.landed hd hland t ht
  running b hb := by
    rcases (hworks b).1 hb with rfl | hb
    · rw [hd.task hc]
      exact List.mem_cons_self
    · rw [hs.task_of_works hd hb]
      exact List.mem_cons_of_mem _ (e.running b hb)
  balanced := by
    have hinsert : s'.workers h' = insert c (s.workers h) := by
      ext b
      rw [hs'.mem_workers, Finset.mem_insert, hs.mem_workers, hworks]
    have hbalanced := e.balanced
    rw [hinsert, Finset.card_insert_of_notMem fun hm => hnew (hs.mem_workers.1 hm),
      List.countP_cons, List.countP_cons]
    simp only [HostCall.isStart, HostCall.isTermination, if_true, Bool.false_eq_true, if_false]
    omega

/-- One process works no more, and its thread has been terminated. -/
theorem Employs.leave (e : s.Employs h work) (hs : s.Sound h) (hs' : s'.Sound h')
    (hd : s.Comes busy ds s') (hland : ∀ b, s.Landed h b → s'.Landed h' b) {c : BlockId}
    (hold : s.Works h c) (hworks : ∀ b, s'.Works h' b ↔ b ≠ c ∧ s.Works h b) (t : TaskHandle) :
    s'.Employs h' (.terminate t :: work) where
  started u hu := e.landed hd hland u ((List.mem_cons.1 hu).resolve_left fun he => by cases he)
  running b hb := by
    have hb := ((hworks b).1 hb).2
    rw [hs.task_of_works hd hb]
    exact List.mem_cons_of_mem _ (e.running b hb)
  balanced := by
    have herase : s'.workers h' = (s.workers h).erase c := by
      ext b
      rw [hs'.mem_workers, Finset.mem_erase, hs.mem_workers, hworks]
    have hcard := Finset.card_erase_add_one (hs.mem_workers.2 hold)
    have hbalanced := e.balanced
    rw [herase, List.countP_cons, List.countP_cons]
    simp only [HostCall.isStart, HostCall.isTermination, if_true, Bool.false_eq_true, if_false]
    omega

/-! ### Moves that call the host about no task -/

/-- Where forks, children in flight and exits are as they were, the same threads are attached. -/
theorem Manned.still (m : s.Manned h work) (hs : s.Sound h) (hs' : s'.Sound h')
    (hd : s.Comes False ds s') (hforker : forkerOf h' = forkerOf h)
    (hflight : s'.inFlight = s.inFlight) (hhalf : s'.halfForked = s.halfForked)
    (hexited : ∀ b, (s'.kernel.block b).exited = (s.kernel.block b).exited) :
    s'.Manned h' work := by
  have hroster : s'.kernel.roster (s'.account h') = s.kernel.roster (s.account h) := by
    funext b
    have hb : b ∈ s'.halfForked ↔ b ∈ s.halfForked := by rw [hhalf]
    exact Kernel.roster_congr (congrFun hforker b) hb (hexited b)
  refine ⟨?_, m.employs.keep hs hs' hd (fun b hb => ?_) fun b => ?_⟩
  · rw [hroster]
    refine Kernel.Does.staffed hd m.staffed fun b hb => hs'.kernel.refCount_of_roster (b := b) ?_
    rwa [hroster]
  · unfold Landed at hb ⊢
    rwa [hforker, hflight]
  · unfold Works Landed
    rw [hforker, hflight, hexited]

/-- Nothing stops but forks and creations. -/
theorem frames_act {move : Move} (hm : ¬move.stops) : (s.act move).2.frames = s.frames := by
  have hp := s.performs move
  generalize s.act move = out at hp ⊢
  cases hp with
  | fork => exact absurd trivial hm
  | create => exact absurd trivial hm
  | resume => exact absurd trivial hm
  | got => exact frames_store ..
  | slot handles => exact handles.frames
  | _ => rfl

theorem flight_proceed (s : Session) (purpose : Purpose) (progress : Progress) :
    (s.proceed purpose progress).2.inFlight = progress.child?.toList ++ s.inFlight ∧
      (s.proceed purpose progress).2.halfForked = progress.half?.toList ++ s.halfForked := by
  unfold inFlight halfForked
  rw [frames_proceed]
  cases progress with
  | stopped next =>
    simp only [Progress.child?, Progress.half?, List.filterMap_cons]
    cases next.child? <;> cases next.half? <;> exact ⟨rfl, rfl⟩
  | _ => exact ⟨rfl, rfl⟩

/-- A fork that has been begun has no child yet. -/
theorem childless_beginFork (k : Kernel) (pid : Pid) :
    (k.beginFork pid).1.child? = none ∧ (k.beginFork pid).1.half? = none := by
  rcases k.beginFork_cases pid with ⟨error, hk⟩ | ⟨q, p, hk⟩ <;> rw [hk] <;> exact ⟨rfl, rfl⟩

theorem childless_beginCreate (k : Kernel) (name : String) :
    (k.beginCreate name).1.child? = none ∧ (k.beginCreate name).1.half? = none := by
  rcases k.beginCreate_cases name with ⟨error, hk⟩ | ⟨p, hk⟩ <;> rw [hk] <;> exact ⟨rfl, rfl⟩

theorem flight_of_childless {k : Kernel} {progress : Progress}
    (hc : progress.child? = none ∧ progress.half? = none) (purpose : Purpose) :
    (proceed { s with kernel := k } purpose progress).2.inFlight = s.inFlight ∧
      (proceed { s with kernel := k } purpose progress).2.halfForked = s.halfForked := by
  obtain ⟨hflight, hhalf⟩ := flight_proceed { s with kernel := k } purpose progress
  rw [hc.1] at hflight
  rw [hc.2] at hhalf
  exact ⟨hflight, hhalf⟩

theorem flight_act {move : Move} (hm : ¬move.busy) :
    (s.act move).2.inFlight = s.inFlight ∧ (s.act move).2.halfForked = s.halfForked := by
  have hframes : ¬move.stops → _ := fun hn => frames_act (s := s) hn
  cases move with
  | fork pid via =>
    unfold act
    dsimp only
    split
    · exact ⟨rfl, rfl⟩
    · exact flight_of_childless (childless_beginFork s.kernel pid) _
  | create name slot => exact flight_of_childless (childless_beginCreate s.kernel name) _
  | resume refusal => exact absurd trivial hm
  | _ => exact ⟨by rw [inFlight, hframes id, inFlight], by rw [halfForked, hframes id, halfForked]⟩

/-- It tells nothing of forks, and nobody exits. -/
theorem Effect.still {move : Move} {es : List Event} {k' : Kernel} (he : s.Effect h move es k')
    (hm : ¬move.busy) : forkerOf (h ++ es) = forkerOf h ∧
      ∀ b, (k'.block b).exited = (s.kernel.block b).exited := by
  cases he with
  | quiet quiet => exact ⟨by rw [List.append_nil], quiet.exited⟩
  | surrendered free quiet =>
    refine ⟨?_, quiet.exited⟩
    funext b
    rw [forkerOf_append]
    exact Option.or_none
  | slept named found parent waiter reaped exited quiet =>
    exact ⟨forkerOf_append_plain h (by simp [Event.plain]),
      quiet.view_of_update Block.exited_of_core rfl⟩
  | collected named found parent waiter reaped exited quiet =>
    exact ⟨forkerOf_append_plain h (by simp [Event.plain]),
      quiet.view_of_update Block.exited_of_core rfl⟩
  | _ => exact absurd trivial hm

theorem Manned.settle (m : s.Manned h work) (hs : s.Sound h) :
    s.settle.2.Manned (h ++ s.settle.1.flatMap s.wakeEvents) work := by
  obtain ⟨hwakes, hsound, -⟩ := hs.settle
  obtain ⟨ds, hd⟩ := comes_settle s
  refine m.still hs hsound hd (forkerOf_append_plain h hwakes.plain) ?_ ?_ hwakes.buries.exited
  · unfold inFlight
    rw [frames_settle]
  · unfold halfForked
    rw [frames_settle]

/-! ### Exits -/

/-- A process that exits loses its thread, which is terminated. -/
theorem Manned.exit (m : s.Manned h work) (hs : s.Sound h) (pid : Pid) (status : ExitStatus) :
    ∃ work', (s.act (.exit pid status)).2.Manned
      (h ++ s.actEvents (.exit pid status) (s.act (.exit pid status)).1
        (s.act (.exit pid status)).2.kernel) work' := by
  obtain ⟨heffect, hsound⟩ := hs.act_exit pid status
  have hforker := forkerOf_append_plain h heffect.plain_of_exit
  obtain ⟨ds, hd⟩ := comes_act s (.exit pid status)
  have hacted := exit_eq s pid status
  generalize h ++ s.actEvents (.exit pid status) (s.act (.exit pid status)).1
    (s.act (.exit pid status)).2.kernel = h' at *
  generalize (s.act (.exit pid status)).2 = s' at *
  rcases hacted with rfl | ⟨⟨n, hn⟩, rfl⟩
  · exact ⟨work, m.still hs hsound .done hforker rfl rfl fun _ => rfl⟩
  obtain ⟨b, hb⟩ := hs.ready.contexts hn
  have hl := hs.lookup_of_serves hb
  obtain ⟨-, ⟨q, hq⟩, he, hout⟩ := hb
  have hh : b ∉ s.halfForked := fun hm => hout (inFlight_of_halfForked hm)
  obtain ⟨k', hk, -, -, hcore⟩ := hs.kernel.exitThread rfl hl hq hh he status
  have hstaffed := hs.kernel.staffed_exitThread rfl hl hq hh he status m.staffed
  rw [hk] at hsound hd hstaffed ⊢
  have hself : (k'.block b).exited = true := by
    rw [Block.exited_of_core (hcore b), Kernel.departure_self]
    rfl
  have hother : ∀ x, x ≠ b → (k'.block x).exited = (s.kernel.block x).exited := fun x hx =>
    (Block.exited_of_core (hcore x)).trans (Kernel.departure_exited_of_ne hx ..)
  have hroster : k'.roster (account { s with kernel := k', contexts := s.contexts.erase pid } h') =
      Function.update (s.kernel.roster (s.account h)) b 0 := by
    funext x
    by_cases hx : x = b
    · have hroot := hs.kernel.ne_root_of_forker hq
      rw [hx, Function.update_self, Kernel.roster, if_neg]
      simp [hself, hroot]
    · rw [Function.update_of_ne hx]
      exact Kernel.roster_congr (congrFun hforker x) .rfl (hother x hx)
  have hland : ∀ x, Landed { s with kernel := k', contexts := s.contexts.erase pid } h' x ↔
      s.Landed h x := fun x => by rw [Landed, hforker]; rfl
  have hworking : s.Works h b :=
    ⟨⟨Option.isSome_iff_exists.2 ⟨q, hq⟩, hout⟩, hs.kernel.exited_of_not_exiting he⟩
  refine ⟨_, hroster ▸ hstaffed, m.employs.leave hs hsound hd (fun x => (hland x).2) hworking
    (fun x => ?_) _⟩
  unfold Works
  rw [hland]
  by_cases hx : x = b
  · subst hx
    simp [hself]
  · simp [hx, hother x hx]

/-! ### Forks that go on -/

section Resume

variable {f : Frame} {fs : List Frame}

theorem flight_cons (hf : s.frames = f :: fs) :
    s.inFlight = f.pending.child?.toList ++ inFlight { s with frames := fs } ∧
      s.halfForked = f.pending.half?.toList ++ halfForked { s with frames := fs } := by
  unfold inFlight halfForked
  rw [hf]
  simp only [List.filterMap_cons]
  cases f.pending.child? <;> cases f.pending.half? <;> exact ⟨rfl, rfl⟩

/-- What a fork or creation tells as it goes on, with `c` for the next block. -/
def births (c : BlockId) : Pending → Progress → List Event
  | .forkTask parent _, .stopped (.forkSpace _ _) => [.born c parent]
  | _, _ => []

theorem events_resume {pending : Pending} {purpose : Purpose}
    (hf : s.frames = ⟨pending, purpose⟩ :: fs) (refusal : Option Errno) (t : Session)
    (progress : Progress) (k : Kernel) :
    s.actEvents (.resume refusal) (t.proceed purpose progress).1 k =
      births s.kernel.blocks.size pending progress := by
  unfold actEvents
  rw [hf]
  rcases progress with next | b | ⟨child, thread⟩ | error
  · cases pending <;> cases next <;> rfl
  all_goals cases pending <;> cases purpose <;> rfl

/-- The process that a fork starts as it goes on. -/
def started? : Pending → Progress → Option BlockId
  | .forkThread _ child, .forked _ _ => some child
  | _, _ => none

/-- What becomes of threads and processes as a fork or creation goes on. -/
structure Proceeds (s : Session) (h : List Event) (pending : Pending) (progress : Progress)
    (s' : Session) (h' : List Event) : Prop where
  roster : ∀ b, s'.kernel.roster (s'.account h') b =
    Kernel.crewed (s.kernel.roster (s.account h)) pending progress b
  landed : ∀ b, s.Landed h b → s'.Landed h' b
  works : ∀ b, s'.Works h' b ↔ started? pending progress = some b ∨ s.Works h b

/-- Nobody is born, linked, started or unwound. -/
theorem Proceeds.of_same {pending : Pending} {progress : Progress}
    (hforker : forkerOf h' = forkerOf h) (hflight : s'.inFlight = s.inFlight)
    (hhalf : s'.halfForked = s.halfForked)
    (hexited : ∀ b, (s'.kernel.block b).exited = (s.kernel.block b).exited)
    (hcrew : Kernel.crewed (s.kernel.roster (s.account h)) pending progress =
      s.kernel.roster (s.account h)) (hstarted : started? pending progress = none) :
    s.Proceeds h pending progress s' h' where
  roster b := by
    have hb : b ∈ s'.halfForked ↔ b ∈ s.halfForked := by rw [hhalf]
    rw [hcrew]
    exact Kernel.roster_congr (congrFun hforker b) hb (hexited b)
  landed b hb := by
    unfold Landed at hb ⊢
    rwa [hforker, hflight]
  works b := by
    unfold Works Landed
    rw [hforker, hflight, hexited, hstarted]
    simp

/-- Most that goes on tells nothing. -/
theorem Proceeds.untold {pending : Pending} {progress : Progress} {c : BlockId}
    (hb : births c pending progress = []) (hp : s.Proceeds h pending progress s' h) :
    s.Proceeds h pending progress s' (h ++ births c pending progress) := by
  rwa [hb, List.append_nil]

/-- A child that is made is forked, but has neither landed nor a thread. -/
theorem Sound.proceeds_born (hs : s.Sound h) {parent : BlockId} {pid : Pid}
    (hflight : s'.inFlight = s.kernel.blocks.size :: s.inFlight)
    (hhalf : s'.halfForked = s.kernel.blocks.size :: s.halfForked)
    (hexited : ∀ b, (s'.kernel.block b).exited = (s.kernel.block b).exited) :
    s.Proceeds h (.forkTask parent pid) (.stopped (.forkSpace parent s.kernel.blocks.size)) s'
      (h ++ [.born s.kernel.blocks.size parent]) := by
  have hnew : forkerOf h s.kernel.blocks.size = none :=
    Option.eq_none_iff_forall_ne_some.2 fun q hq => Nat.lt_irrefl _ (hs.forker_lt hq)
  have hforker : ∀ b, b ≠ s.kernel.blocks.size →
      forkerOf (h ++ [.born s.kernel.blocks.size parent]) b = forkerOf h b := fun b hb => by
    rw [forkerOf_append, forkerOf_born, if_neg (Ne.symm hb), Option.or_none]
  have hnone : ¬s.Landed h s.kernel.blocks.size := fun hl => by
    rw [Landed, hnew] at hl
    cases hl.1
  have hland : ∀ b, s'.Landed (h ++ [.born s.kernel.blocks.size parent]) b ↔ s.Landed h b := by
    intro b
    by_cases hb : b = s.kernel.blocks.size
    · subst hb
      refine iff_of_false (fun hl => hl.2 ?_) hnone
      rw [hflight]
      exact List.mem_cons_self
    · simp only [Landed, hforker b hb, hflight, List.mem_cons, hb, false_or]
  refine ⟨fun b => ?_, fun b => (hland b).2, fun b => ?_⟩
  · change _ = s.kernel.roster (s.account h) b
    by_cases hb : b = s.kernel.blocks.size
    · subst hb
      have hroot : s.kernel.blocks.size ≠ Kernel.root :=
        (Nat.ne_of_lt hs.kernel.ordered.root_lt).symm
      simp [Kernel.roster, account, hhalf, hnew, hroot]
    · have hmem : b ∈ s'.halfForked ↔ b ∈ s.halfForked := by simp [hhalf, hb]
      exact Kernel.roster_congr (hforker b hb) hmem (hexited b)
  · unfold Works
    rw [hland, hexited]
    simp [started?]

/-- A child that is linked gets a thread. -/
theorem Sound.proceeds_linked (hs : s.Sound h) {parent child : BlockId}
    (hforker : forkerOf h child = some parent) (hflight : s'.inFlight = s.inFlight)
    (hhalf : s.halfForked = child :: s'.halfForked) (hnot : child ∉ s'.halfForked)
    (hexited : ∀ b, (s'.kernel.block b).exited = (s.kernel.block b).exited) :
    s.Proceeds h (.forkFiles parent child) (.stopped (.forkThread parent child)) s' h := by
  have hin : child ∈ s.halfForked := hhalf ▸ List.mem_cons_self
  have hroot := hs.kernel.ne_root_of_forker hforker
  have hexiting := (hs.kernel.kindred.half child hin).2.2.1
  have hrunning := hs.kernel.exited_of_not_exiting hexiting
  have hland : ∀ b, s'.Landed h b ↔ s.Landed h b := fun b => by rw [Landed, hflight, Landed]
  refine ⟨fun b => ?_, fun b => (hland b).2, fun b => ?_⟩
  · change _ = Function.update (s.kernel.roster (s.account h)) child _ b
    by_cases hb : b = child
    · subst hb
      have hbefore : s.kernel.roster (s.account h) b = 0 := by
        simp [Kernel.roster, account, hin, hroot]
      have hafter : s'.kernel.roster (s'.account h) b = 1 := by
        simp [Kernel.roster, account, hnot, hforker, hexited, hrunning]
      rw [Function.update_self, hbefore, hafter]
    · have hmem : b ∈ s'.halfForked ↔ b ∈ s.halfForked := by simp [hhalf, hb]
      rw [Function.update_of_ne hb]
      exact Kernel.roster_congr rfl hmem (hexited b)
  · unfold Works
    rw [hland, hexited]
    simp [started?]

/-- A child whose thread is started has landed. -/
theorem Sound.proceeds_started (hs : s.Sound h) {parent child : BlockId} {pid : Pid}
    {thread : String} (hforker : forkerOf h child = some parent)
    (hflight : s.inFlight = child :: s'.inFlight) (hnot : child ∉ s'.inFlight)
    (hhalf : s'.halfForked = s.halfForked)
    (hexited : ∀ b, (s'.kernel.block b).exited = (s.kernel.block b).exited) :
    s.Proceeds h (.forkThread parent child) (.forked pid thread) s' h := by
  have hin : child ∈ s.inFlight := hflight ▸ List.mem_cons_self
  have hrunning := hs.kernel.exited_of_not_exiting (hs.inFlight_running hin).2
  have hland : ∀ b, s'.Landed h b ↔ b = child ∨ s.Landed h b := fun b => by
    by_cases hb : b = child
    · subst hb
      simp [Landed, hforker, hnot]
    · simp [Landed, hflight, hb]
  refine ⟨fun b => ?_, fun b hb => (hland b).2 (Or.inr hb), fun b => ?_⟩
  · have hmem : b ∈ s'.halfForked ↔ b ∈ s.halfForked := by rw [hhalf]
    exact Kernel.roster_congr rfl hmem (hexited b)
  · unfold Works
    rw [hland, hexited]
    by_cases hb : b = child
    · subst hb
      simp [started?, hrunning]
    · simp [started?, hb, Ne.symm hb]

/-- A child whose fork is unwound has no thread, and never works. -/
theorem Sound.proceeds_unwound (hs : s.Sound h) {pending : Pending} {error : ProcessError}
    {child : BlockId} (carried : pending.child? = some child)
    (hflight : s.inFlight = child :: s'.inFlight)
    (hhalf : s.halfForked = pending.half?.toList ++ s'.halfForked)
    (hnot : child ∉ s'.halfForked) (hself : (s'.kernel.block child).exited = true)
    (hexited : ∀ b, b ≠ child → (s'.kernel.block b).exited = (s.kernel.block b).exited) :
    s.Proceeds h pending (.failed error) s' h := by
  have hin : child ∈ s.inFlight := hflight ▸ List.mem_cons_self
  obtain ⟨⟨q, hforker⟩, hexiting⟩ := hs.inFlight_running hin
  have hrunning := hs.kernel.exited_of_not_exiting hexiting
  have hroot := hs.kernel.ne_root_of_forker hforker
  have hhalf? : ∀ b, b ≠ child → b ∉ pending.half?.toList := by
    intro b hb hm
    have hc := Pending.child?_of_half? (Option.mem_toList.1 hm)
    exact hb (Option.some.inj (hc.symm.trans carried))
  refine ⟨fun b => ?_, fun b hb => ⟨hb.1, fun hm => hb.2 ?_⟩, fun b => ?_⟩
  · by_cases hb : b = child
    · subst hb
      have hafter : s'.kernel.roster (s'.account h) b = 0 := by
        simp [Kernel.roster, hself, hroot]
      rw [hafter]
      cases pending with
      | create _ _ => cases carried
      | forkTask _ _ => cases carried
      | forkThread parent child =>
        obtain rfl := Option.some.inj carried
        have hbefore : s.kernel.roster (s.account h) child = 1 := by
          have hout : child ∉ s.halfForked := by
            rw [hhalf]
            exact hnot
          simp [Kernel.roster, account, hout, hforker, hrunning]
        rw [Kernel.crewed, Function.update_self, hbefore]
      | _ =>
        obtain rfl := Option.some.inj carried
        simp [Kernel.crewed, Kernel.roster, account, hhalf, Pending.half?, hroot]
    · have hmem : b ∈ s'.halfForked ↔ b ∈ s.halfForked := by
        rw [hhalf, List.mem_append]
        exact (or_iff_right (hhalf? b hb)).symm
      have hcrew : Kernel.crewed (s.kernel.roster (s.account h)) pending (.failed error) b =
          s.kernel.roster (s.account h) b := by
        cases pending with
        | forkThread parent c =>
          obtain rfl := Option.some.inj carried
          exact Function.update_of_ne hb ..
        | _ => rfl
      rw [hcrew]
      exact Kernel.roster_congr rfl hmem (hexited b hb)
  · rw [hflight]
    exact List.mem_cons_of_mem _ hm
  · have hstarted : started? pending (.failed error) = none := by cases pending <;> rfl
    rw [hstarted]
    by_cases hb : b = child
    · subst hb
      simp [Works, Landed, hself, hin]
    · simp [Works, Landed, hflight, hexited b hb, hb]

theorem Sound.proceeds (hs : s.Sound h) {pending : Pending} {purpose : Purpose}
    (hf : s.frames = ⟨pending, purpose⟩ :: fs) {progress : Progress} {k' : Kernel}
    (hw : s.kernel.Resumed (account { s with frames := fs } h) pending progress k')
    (hflight : s'.inFlight = progress.child?.toList ++ inFlight { s with frames := fs })
    (hhalf : s'.halfForked = progress.half?.toList ++ halfForked { s with frames := fs })
    (hexited : ∀ b, (s'.kernel.block b).exited = (k'.block b).exited) :
    s.Proceeds h pending progress s' (h ++ births s.kernel.blocks.size pending progress) := by
  obtain ⟨hflight₀, hhalf₀⟩ := flight_cons hf
  have hrest : ∀ {c}, pending.child? = some c → c ∉ inFlight { s with frames := fs } ∧
      c ∉ halfForked { s with frames := fs } := fun hc =>
    have hnot := hs.ready.not_mem_rest hf hc
    ⟨hnot, fun hm => hnot (inFlight_of_halfForked hm)⟩
  have hfit := hs.fits hf
  dsimp only at hflight₀ hhalf₀ hfit
  have hquiet : s.kernel.Quiet k' → ∀ b, (s'.kernel.block b).exited = (s.kernel.block b).exited :=
    fun hq b => (hexited b).trans (hq.exited b)
  cases hw with
  | @refused _ error _ childless quiet =>
    rw [childless] at hflight₀
    cases pending with
    | create pid name =>
      exact .untold rfl (.of_same rfl (hflight.trans hflight₀.symm) (hhalf.trans hhalf₀.symm)
        (hquiet quiet) rfl rfl)
    | forkTask parent pid =>
      exact .untold rfl (.of_same rfl (hflight.trans hflight₀.symm) (hhalf.trans hhalf₀.symm)
        (hquiet quiet) rfl rfl)
    | _ => cases childless
  | created blocks =>
    exact .untold rfl (.of_same rfl (hflight.trans hflight₀.symm) (hhalf.trans hhalf₀.symm)
      (fun b => (hexited b).trans (Kernel.view_of_add blocks rfl b)) rfl rfl)
  | born blocks =>
    exact hs.proceeds_born (hflight.trans (congrArg _ hflight₀.symm))
      (hhalf.trans (congrArg _ hhalf₀.symm))
      fun b => (hexited b).trans (Kernel.view_of_add blocks rfl b)
  | copied quiet =>
    exact .untold rfl (.of_same rfl (hflight.trans hflight₀.symm) (hhalf.trans hhalf₀.symm)
      (hquiet quiet) rfl rfl)
  | linked running quiet =>
    refine .untold rfl (hs.proceeds_linked hfit (hflight.trans hflight₀.symm)
      (hhalf₀.trans (congrArg _ hhalf.symm)) (fun hm => (hrest rfl).2 (by rwa [hhalf] at hm))
      fun b => ?_)
    exact (hexited b).trans (quiet.view_of_update Block.exited_of_core rfl b)
  | started quiet =>
    exact .untold rfl (hs.proceeds_started hfit.1 (hflight₀.trans (congrArg _ hflight.symm))
      (fun hm => (hrest rfl).1 (by rwa [hflight] at hm)) (hhalf.trans hhalf₀.symm) (hquiet quiet))
  | @unwound _ child error _ carried quiet =>
    rw [carried] at hflight₀
    refine .untold (by cases pending <;> rfl) (hs.proceeds_unwound carried
      (hflight₀.trans (congrArg _ hflight.symm)) (hhalf₀.trans (congrArg _ hhalf.symm))
      (fun hm => (hrest carried).2 (by rwa [hhalf] at hm)) ?_ fun b hb => ?_)
    · have hlt : child < s.kernel.blocks.size := by
        have hin : child ∈ s.inFlight := hflight₀ ▸ List.mem_cons_self
        obtain ⟨⟨q, hq⟩, -⟩ := hs.inFlight_running hin
        exact hs.forker_lt hq
      rw [hexited, quiet.exited, Kernel.block_update_self hlt]
      rfl
    · rw [hexited, quiet.exited, Kernel.block_update_of_ne hb]

/-- A thread is started in the task of a child if its fork succeeds. -/
theorem Employs.proceed (e : s.Employs h work) (hs : s.Sound h) (hs' : s'.Sound h')
    {pending : Pending} {purpose : Purpose} (hf : s.frames = ⟨pending, purpose⟩ :: fs)
    {progress : Progress} (hd : s.Comes busy ds s') (hp : s.Proceeds h pending progress s' h') :
    s'.Employs h' (s.kernel.worked work pending progress) := by
  have hworked : s.kernel.worked work pending progress = (started? pending progress).elim work
      fun c => .spawn (s.kernel.block c).task none :: work := by
    cases pending <;> cases progress <;> rfl
  have hworks := hp.works
  rw [hworked]
  cases hc : started? pending progress with
  | none =>
    rw [hc] at hworks
    exact e.keep hs hs' hd hp.landed fun b => by simp [hworks]
  | some c =>
    rw [hc] at hworks
    have hin : c ∈ s.inFlight := by
      refine mem_inFlight.2 ⟨_, hf ▸ List.mem_cons_self, ?_⟩
      unfold started? at hc
      split at hc
      · exact hc
      · cases hc
    obtain ⟨⟨q, hq⟩, -⟩ := hs.inFlight_running hin
    exact e.start hs hs' hd hp.landed (hs.forker_lt hq) (fun hw => hw.1.2 hin) fun b => by
      rw [hworks, Option.some.injEq, eq_comm]

/-- A fork that goes on keeps the threads and the processes that work in step. -/
theorem Manned.resume (m : s.Manned h work) (hs : s.Sound h) (refusal : Option Errno) :
    ∃ work', (s.act (.resume refusal)).2.Manned
      (h ++ s.actEvents (.resume refusal) (s.act (.resume refusal)).1
        (s.act (.resume refusal)).2.kernel) work' := by
  have hsound := (hs.act_resume refusal).sound
  obtain ⟨ds, hd⟩ := comes_act s (.resume refusal)
  cases hf : s.frames with
  | nil =>
    rw [act_resume_of_nil hf]
    exact ⟨work, by rw [show s.actEvents (.resume refusal) .idle s.kernel = [] from rfl,
      List.append_nil]; exact m⟩
  | cons f fs =>
    obtain ⟨pending, purpose⟩ := f
    have hw := (hs.load hf).resume rfl (hs.fits hf) refusal
    have hnamed : ∀ b, pending.parent? = some b ∨ pending.child? = some b →
        (s.kernel.block b).refCount ≠ 0 := fun b hb =>
      hs.kernel.counted.counted
        (hs.lookup_of_names (Or.inr (Or.inr ⟨_, hf ▸ List.mem_cons_self, hb⟩)))
    have hstaffed := m.staffed.resume pending refusal hnamed
    rw [act_resume_of_cons hf] at hsound hd ⊢
    rw [events_resume hf] at hsound ⊢
    dsimp only at hw hsound hd ⊢
    generalize s.kernel.resume pending refusal = out at hw hstaffed hsound hd ⊢
    obtain ⟨progress, k'⟩ := out
    have hev : k'.Evolves False (proceed { s with kernel := k', frames := fs } purpose progress).2.kernel :=
      proceed_of (P := (k'.Evolves False ·)) (.refl _) (fun b => Kernel.evolves_release _ b) purpose
        progress
    have hquiet := quiet_proceed { s with kernel := k', frames := fs } purpose progress
    obtain ⟨hflight, hhalf⟩ := flight_proceed { s with kernel := k', frames := fs } purpose progress
    generalize (proceed { s with kernel := k', frames := fs } purpose progress).2 = s' at *
    have hp := hs.proceeds hf hw hflight hhalf hquiet.exited
    have hroster := funext hp.roster
    have hheld : ∀ b, Kernel.crewed (s.kernel.roster (s.account h)) pending progress b ≠ 0 →
        (s'.kernel.block b).refCount ≠ 0 := fun b hb =>
      hsound.kernel.refCount_of_roster (b := b) (by rwa [hroster])
    have hresumed := hstaffed fun b hb hdead => by
      have hlt := Kernel.lt_of_refCount_ne_zero (hheld b hb)
      obtain ⟨ds', hd'⟩ := hev []
      exact hheld b hb (hd'.dead (hquiet.size ▸ hlt) hdead).1
    refine ⟨_, ?_, m.employs.proceed hs hsound hf hd hp⟩
    rw [hroster]
    exact hev.staffed hresumed hheld

end Resume

/-! ### Runs -/

theorem Manned.act (m : s.Manned h work) (hs : s.Sound h) {move : Move}
    (hp : move.permitted s h = true) : ∃ work', (s.act move).2.Manned
      (h ++ s.actEvents move (s.act move).1 (s.act move).2.kernel) work' := by
  by_cases hm : move.busy
  · cases move with
    | resume refusal => exact m.resume hs refusal
    | exit pid status => exact m.exit hs pid status
    | shutdown => cases hp
    | _ => exact hm.elim
  · obtain ⟨heffect, hsound⟩ := hs.act hp
    obtain ⟨ds, hd⟩ := comes_act s move
    obtain ⟨hforker, hexited⟩ := heffect.still hm
    obtain ⟨hflight, hhalf⟩ := flight_act hm
    exact ⟨work, m.still hs hsound (hd.mono hm) hforker hflight hhalf hexited⟩

theorem Manned.step (m : s.Manned h work) (hs : s.Sound h) {move : Move}
    (hp : move.permitted s h = true) :
    ∃ work', (s.step move).2.2.Manned (h ++ s.events move) work' := by
  obtain ⟨work', m'⟩ := m.act hs hp
  rw [events, ← List.append_assoc]
  exact ⟨work', m'.settle (hs.act hp).sound⟩

theorem manned_boot {config : Config} {refusal : Option Errno} (hb : boot config refusal = .ok s) :
    s.Manned [] [] := by
  obtain ⟨k, hk, rfl⟩ := boot_eq hb
  refine ⟨Kernel.staffed_boot hk, fun t ht => ?_, fun b hw => ?_, ?_⟩
  · cases ht
  · cases hw.1.1
  · have hnone : workers { kernel := k } [] = ∅ :=
      Finset.filter_false_of_mem fun b _ hw => by cases hw.1.1
    rw [hnone]
    rfl

/-- After any moves the threads and the processes that work are in step. -/
theorem manned_run {config : Config} {refusal : Option Errno} {moves : List Move}
    (hb : boot config refusal = .ok s) (hl : s.lawful [] moves = true) :
    ∃ work, (s.run moves).Manned (s.history [] moves) work :=
  (run_induction (P := fun s h => ∃ work, s.Manned h work)
    (fun hs hp ⟨_, m⟩ => m.step hs hp) (sound_boot hb).1 hl ⟨[], manned_boot hb⟩).2

end Session

end Lifecycle
