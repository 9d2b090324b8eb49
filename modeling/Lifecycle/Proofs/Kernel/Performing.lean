import Lifecycle.Proofs.Kernel.Quiet

/-! What each call to a table can do, said once. A call leaves the table as it was, or it has
passed the checks that are named and does what they allow. Nothing is asked of the table:
what every call keeps is proved by cases on what the call does, and only here are the calls
themselves taken apart. -/

namespace Lifecycle

/-- The child that a fork has made so far. -/
def Pending.child? : Pending → Option BlockId
  | create _ _ => none
  | forkTask _ _ => none
  | forkSpace _ child => some child
  | forkFiles _ child => some child
  | forkThread _ child => some child

namespace Kernel

variable {k k' : Kernel}

/-! ### Lookups -/

/-- A live table has a block at a pid, with references. -/
structure Found (k : Kernel) (pid : Pid) (b : BlockId) : Prop where
  live : k.live = true
  installed : k.pids.lookup pid = some b
  counted : (k.block b).refCount ≠ 0

theorem Found.lt {pid : Pid} {b : BlockId} (h : k.Found pid b) : b < k.blocks.size :=
  lt_of_refCount_ne_zero h.counted

theorem Found.get {pid : Pid} {b : BlockId} (h : k.Found pid b) :
    k.get pid = (some b, k.update b .retained) := by
  rw [get_eq, h.installed]
  exact if_pos ⟨h.live, h.counted⟩

/-- Who is found may be waited for. -/
theorem Found.block_committed {pid : Pid} {b : BlockId} (h : k.Found pid b) :
    ((k.update b .retained).update b .committed).block b = (k.block b).retained.committed := by
  rw [block_update_self (by rw [size_update]; exact h.lt), block_update_self h.lt]

/-- What a lookup does. -/
inductive Looks (k : Kernel) (pid : Pid) : Option BlockId × Kernel → Prop
  | missed : Looks k pid (none, k)
  | found {b} (found : k.Found pid b) : Looks k pid (some b, k.update b .retained)

theorem looks (k : Kernel) (pid : Pid) : k.Looks pid (k.get pid) := by
  rw [get_eq]
  split
  · split
    · next hl hv => exact .found ⟨hv.1, hl, hv.2⟩
    · exact .missed
  · exact .missed

/-! ### Forks and creations that begin -/

/-- What beginning a creation does. -/
inductive BeginsCreate (k : Kernel) (name : String) : Progress × Kernel → Prop
  | refused {error k'} (reserve : k.reserve = (.error error, k')) :
      BeginsCreate k name (.failed error, k')
  | begun {pid k'} (reserve : k.reserve = (.ok pid, k')) :
      BeginsCreate k name (.stopped (.create pid name), k')

theorem beginsCreate (k : Kernel) (name : String) : k.BeginsCreate name (k.beginCreate name) := by
  unfold beginCreate
  split
  · next reserve => exact .refused reserve
  · next reserve => exact .begun reserve

/-- What beginning a fork does. -/
inductive BeginsFork (k : Kernel) (pid : Pid) : Progress × Kernel → Prop
  | refused {error} : BeginsFork k pid (.failed error, k)
  | full {parent error k'} (found : k.Found pid parent)
      (reserve : (k.update parent .retained).reserve = (.error error, k')) :
      BeginsFork k pid (k'.endFork parent (.failed error))
  | begun {parent p k'} (found : k.Found pid parent)
      (reserve : (k.update parent .retained).reserve = (.ok p, k')) :
      BeginsFork k pid (.stopped (.forkTask parent p), k')

theorem beginFork_of_missed {pid : Pid} (live : k.live = true) (hl : k.pids.lookup pid = none) :
    k.beginFork pid = (.failed (.noSuchProcess (signedPid pid)), k) := by
  simp only [beginFork, live, get_eq, hl]
  rfl

theorem beginFork_of_found {pid : Pid} {b : BlockId} (found : k.Found pid b) :
    k.beginFork pid = match (k.update b .retained).reserve with
      | (.error error, k') => k'.endFork b (.failed error)
      | (.ok p, k') => (.stopped (.forkTask b p), k') := by
  simp only [beginFork, found.live, found.get]
  rfl

theorem beginsFork (k : Kernel) (pid : Pid) : k.BeginsFork pid (k.beginFork pid) := by
  unfold beginFork
  split
  · exact .refused
  · have hl := k.looks pid
    generalize k.get pid = out at hl ⊢
    cases hl with
    | missed => exact .refused
    | found found =>
      dsimp only
      split
      · next reserve => exact .full found reserve
      · next reserve => exact .begun found reserve

theorem beginCreate_cases (k : Kernel) (name : String) :
    (∃ error, (k.beginCreate name).1 = .failed error) ∨
      ∃ p, (k.beginCreate name).1 = .stopped (.create p name) := by
  have hb := k.beginsCreate name
  generalize k.beginCreate name = out at hb ⊢
  cases hb with
  | refused => exact Or.inl ⟨_, rfl⟩
  | begun => exact Or.inr ⟨_, rfl⟩

theorem beginFork_cases (k : Kernel) (pid : Pid) :
    (∃ error, (k.beginFork pid).1 = .failed error) ∨
      ∃ parent p, (k.beginFork pid).1 = .stopped (.forkTask parent p) := by
  have hb := k.beginsFork pid
  generalize k.beginFork pid = out at hb ⊢
  cases hb with
  | refused => exact Or.inl ⟨_, rfl⟩
  | full => exact Or.inl ⟨_, rfl⟩
  | begun => exact Or.inr ⟨_, _, rfl⟩

/-! ### Forks and creations that go on -/

/-- What is left by the calls to the host that a fork makes once it has a child. -/
inductive Called (k : Kernel) : Kernel → Prop
  | space {src dst refusal answer k'}
      (called : k.cloneAddressSpace src dst refusal = (answer, k')) : Called k k'
  | files {src dst refusal answer k'}
      (called : k.cloneFdTable src dst refusal = (answer, k')) : Called k k'
  | spawn {task refusal answer k'}
      (called : k.spawnThread task refusal = (answer, k')) : Called k k'
  | detached {task refusal answer k'}
      (called : k.spawnThread task refusal = (answer, k')) (other : TaskHandle) :
      Called k (k'.detachThread other)

/-- They leave the table alone. -/
theorem Called.table (h : k.Called k') : k'.table = k.table := by
  cases h with
  | space called => exact (congrArg (·.2.table) called).symm.trans (table_cloneAddressSpace ..)
  | files called => exact (congrArg (·.2.table) called).symm.trans (table_cloneFdTable ..)
  | spawn called => exact (congrArg (·.2.table) called).symm.trans (table_spawnThread ..)
  | detached called => exact (congrArg (·.2.table) called).symm.trans (table_spawnThread ..)

theorem Called.quiet (h : k.Called k') : k.Quiet k' := .of_table h.table

/-- The host refuses a call that a fork makes once it has a child. If no thread can be started,
the one that was attached for it goes. -/
inductive Refused (k : Kernel) (refusal : Option Errno) : Pending → Kernel → Prop
  | space {parent child errno k'} (called : k.cloneAddressSpace (k.block parent).task
        (k.block child).task refusal = (some errno, k')) :
      Refused k refusal (.forkSpace parent child) k'
  | files {parent child errno k'} (called : k.cloneFdTable (k.block parent).task
        (k.block child).task refusal = (some errno, k')) :
      Refused k refusal (.forkFiles parent child) k'
  | spawn {parent child errno k'}
      (called : k.spawnThread (k.block child).task refusal = (.error errno, k')) :
      Refused k refusal (.forkThread parent child) (k'.detachThread (k'.block child).task)

theorem Refused.called {pending : Pending} {refusal : Option Errno}
    (h : k.Refused refusal pending k') : k.Called k' := by
  cases h with
  | space called => exact .space called
  | files called => exact .files called
  | spawn called => exact .detached called _

/-- What a fork or creation that goes on comes to. Its block is refused or made; or, with its
child made, a call is refused and the fork given up, or it stops again, links the child or is
complete. -/
inductive Resumes (k : Kernel) (refusal : Option Errno) : Pending → Progress × Kernel → Prop
  | uncreated {pid name error k'} (made : k.make pid name refusal = (.error error, k')) :
      Resumes k refusal (.create pid name) (.failed error, k')
  | created {pid name b k'} (made : k.make pid name refusal = (.ok b, k')) :
      Resumes k refusal (.create pid name) (.created b, k')
  | unborn {parent pid error k'}
      (made : k.make pid (k.block parent).name refusal = (.error error, k')) :
      Resumes k refusal (.forkTask parent pid) (k'.endFork parent (.failed error))
  | born {parent pid child k'}
      (made : k.make pid (k.block parent).name refusal = (.ok child, k')) :
      Resumes k refusal (.forkTask parent pid) (.stopped (.forkSpace parent child), k')
  | unwound {pending parent child error k'} (held : pending.parent? = some parent)
      (flight : pending.child? = some child) (refused : k.Refused refusal pending k') :
      Resumes k refusal pending ((k'.abandon child).endFork parent (.failed error))
  | copied {parent child k'} (space : k.cloneAddressSpace (k.block parent).task
        (k.block child).task refusal = (none, k')) :
      Resumes k refusal (.forkSpace parent child) (.stopped (.forkFiles parent child), k')
  | linked {parent child k'} (files : k.cloneFdTable (k.block parent).task
        (k.block child).task refusal = (none, k')) :
      Resumes k refusal (.forkFiles parent child) (k'.linkChild parent child)
  | complete {parent child thread k'}
      (spawned : k.spawnThread (k.block child).task refusal = (.ok thread, k')) :
      Resumes k refusal (.forkThread parent child)
        (k'.endFork parent (.forked (k'.block child).pid thread))

theorem resumes (k : Kernel) (pending : Pending) (refusal : Option Errno) :
    k.Resumes refusal pending (k.resume pending refusal) := by
  unfold resume
  cases pending with
  | create pid name =>
    dsimp only
    split
    · next made => exact .uncreated made
    · next made => exact .created made
  | forkTask parent pid =>
    dsimp only
    split
    · next made => exact .unborn made
    · next made => exact .born made
  | forkSpace parent child =>
    dsimp only
    split
    · next called => exact .unwound rfl rfl (.space called)
    · next space => exact .copied space
  | forkFiles parent child =>
    dsimp only
    split
    · next called => exact .unwound rfl rfl (.files called)
    · next files => exact .linked files
  | forkThread parent child =>
    dsimp only
    split
    · next called => exact .unwound rfl rfl (.spawn called)
    · next spawned => exact .complete spawned

/-- What linking the child of a fork does. -/
inductive Links (k : Kernel) (parent child : BlockId) : Progress × Kernel → Prop
  | unwound {error} (exiting : (k.block parent).exiting = true) :
      Links k parent child ((k.abandon child).endFork parent (.failed error))
  | attached (running : (k.block parent).exiting = false) :
      Links k parent child (.stopped (.forkThread parent child),
        (k.attach child parent).attachThread ((k.attach child parent).block child).task
          ((k.attach child parent).block child).pid)

theorem links (k : Kernel) (parent child : BlockId) :
    k.Links parent child (k.linkChild parent child) := by
  unfold linkChild
  split
  · next exiting => exact .unwound exiting
  · next running => exact .attached (eq_false_of_ne_true running)

theorem linkChild_cases (k : Kernel) (parent child : BlockId) :
    (∃ error, (k.linkChild parent child).1 = .failed error) ∨
      (k.linkChild parent child).1 = .stopped (.forkThread parent child) := by
  have hl := k.links parent child
  generalize k.linkChild parent child = out at hl ⊢
  cases hl with
  | unwound => exact Or.inl ⟨_, rfl⟩
  | attached => exact Or.inr rfl

/-! ### Waits -/

/-- What a wait does. It commits to a child that nobody waits for, and collects its status at once
or sleeps. -/
inductive Asks (k : Kernel) (caller : Pid) (target : Int64) : WaitOutcome × Kernel → Prop
  | refused {error} : Asks k caller target (.done (.error error), k)
  | collected {pid b} (named : k.targetPid? target = some pid) (found : k.Found pid b)
      (parent : (k.block b).parent = some caller) (reaped : (k.block b).reaped = false)
      (waiter : (k.block b).waiter = false) (exited : (k.block b).exited = true) :
      Asks k caller target (.done (((k.update b .retained).update b .committed).collect b).1,
        (((k.update b .retained).update b .committed).collect b).2)
  | asleep {pid b} (named : k.targetPid? target = some pid) (found : k.Found pid b)
      (parent : (k.block b).parent = some caller) (reaped : (k.block b).reaped = false)
      (waiter : (k.block b).waiter = false) (exited : (k.block b).exited = false) :
      Asks k caller target (.asleep b, (k.update b .retained).update b .committed)

/-- What a wait does once its lookup has found somebody. One that is refused gives the reference of
the lookup back. -/
theorem commitWait_retained {b : BlockId} (hz : (k.block b).refCount ≠ 0) (caller pid : Pid) :
    (k.update b .retained).commitWait caller pid b =
      if (k.block b).parent ≠ some caller then (.done (.error (.notChild pid caller)), k)
      else if (k.block b).reaped then (.done (.error (.noSuchProcess (signedPid pid))), k)
      else if (k.block b).waiter then (.done (.error (.alreadyWaited pid)), k)
      else if (k.block b).exited then
        (.done (((k.update b .retained).update b .committed).collect b).1,
          (((k.update b .retained).update b .committed).collect b).2)
      else (.asleep b, (k.update b .retained).update b .committed) := by
  have hq : k.Quiet (k.update b .retained) := .of_update b _ fun _ => rfl
  have hfold : (fun x : Block => { x with waiter := true }) = .committed := rfl
  have hexited : (((k.update b .retained).update b .committed).block b).exited =
      (k.block b).exited := (view_update Block.exited rfl b).trans (hq.exited b)
  unfold commitWait endWait
  rw [hq.parent, hq.reaped, hq.waiter, release_retained hz, hfold]
  dsimp only
  rw [hexited]

theorem wait_of_found {pid : Pid} {b : BlockId} {target : Int64}
    (named : k.targetPid? target = some pid) (found : k.Found pid b) (caller : Pid) :
    k.wait caller target 0 = (k.update b .retained).commitWait caller pid b := by
  unfold wait
  rw [if_neg (fun hne => hne rfl), named]
  simp only [found.get]

theorem asks (k : Kernel) (caller : Pid) (target : Int64) (options : Int32) :
    k.Asks caller target (k.wait caller target options) := by
  unfold wait
  split
  · exact .refused
  · cases named : k.targetPid? target with
    | none => exact .refused
    | some pid =>
      have hl := k.looks pid
      dsimp only
      generalize k.get pid = out at hl ⊢
      cases hl with
      | missed => exact .refused
      | found found =>
        dsimp only
        rw [commitWait_retained found.counted]
        split
        · exact .refused
        · next parent =>
          have parent := Decidable.not_not.1 parent
          split
          · exact .refused
          · next reaped =>
            have reaped := eq_false_of_ne_true reaped
            split
            · exact .refused
            · next waiter =>
              have waiter := eq_false_of_ne_true waiter
              split
              · next exited => exact .collected named found parent reaped waiter exited
              · next exited =>
                exact .asleep named found parent reaped waiter (eq_false_of_ne_true exited)

/-! ### Exits -/

/-- What an exit does. -/
inductive Leaves (k : Kernel) (pid : Pid) (status : RawStatus) : Option ExitPath × Kernel → Prop
  | missed : Leaves k pid status (none, k)
  | left {b path k'} (found : k.Found pid b)
      (published : (((k.update b .retained).beginExit b).rearrangeChildren
        (k.block b).pid).publishExit b status = (path, k')) :
      Leaves k pid status (some path, (k'.release b).2)

theorem exit_of_found {pid : Pid} {b : BlockId} (found : k.Found pid b) {status : RawStatus}
    {path : ExitPath} (published : (((k.update b .retained).beginExit b).rearrangeChildren
      (k.block b).pid).publishExit b status = (path, k')) :
    k.exit pid status = (some path, (k'.release b).2) := by
  have hpid : ((k.update b .retained).block b).pid = (k.block b).pid := view_update Block.pid rfl b
  rw [← hpid] at published
  simp only [exit, found.get, published]

theorem leaves (k : Kernel) (pid : Pid) (status : RawStatus) :
    k.Leaves pid status (k.exit pid status) := by
  cases hget : k.get pid with
  | mk found k₁ =>
    have hl := k.looks pid
    rw [hget] at hl
    cases hl with
    | missed =>
      rw [exit, hget]
      exact .missed
    | @found b found =>
      cases published : (((k.update b .retained).beginExit b).rearrangeChildren
          (k.block b).pid).publishExit b status with
      | mk path k' =>
        rw [exit_of_found found published]
        exact .left found published

/-- What an exit does that ends the thread as well. -/
inductive LeavesThread (k : Kernel) (pid : Pid) (status : ExitStatus) :
    Option ExitPath × Kernel → Prop
  | missed : LeavesThread k pid status (none, k)
  | left {b} (found : k.Found pid b) :
      LeavesThread k pid status ((k.exit pid status.encode).1,
        (k.exit pid status.encode).2.terminateThread (k.block b).task)

theorem exitThread_of_found {pid : Pid} {b : BlockId} (found : k.Found pid b)
    (status : ExitStatus) : k.exitThread pid status =
      ((k.exit pid status.encode).1,
        (k.exit pid status.encode).2.terminateThread (k.block b).task) := by
  have htask : ((k.update b .retained).block b).task = (k.block b).task :=
    view_update Block.task rfl b
  simp only [exitThread, taskOf?, found.get, release_retained found.counted, htask]

theorem leavesThread (k : Kernel) (pid : Pid) (status : ExitStatus) :
    k.LeavesThread pid status (k.exitThread pid status) := by
  cases hget : k.get pid with
  | mk found k₁ =>
    have hl := k.looks pid
    rw [hget] at hl
    cases hl with
    | missed =>
      simp only [exitThread, taskOf?, exit, hget]
      exact .missed
    | found found =>
      rw [exitThread_of_found found]
      exact .left found

end Kernel

end Lifecycle
