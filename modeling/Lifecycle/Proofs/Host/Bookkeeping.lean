import Lifecycle.Host.Script
import Lifecycle.Proofs.Host
import Lifecycle.Proofs.Kernel.Spacing

/-! The books of the host of threads. Whoever calls it, in whatever order and with whatever
handles, it gives no handle and no address space out twice, counts the tasks it has made and
destroyed, and touches one record at most in one call. -/

namespace Lifecycle

/-- A call to the host of threads. -/
inductive Request
  | createTask (name : String)
  | destroyTask (task : TaskHandle)
  | attach (task : TaskHandle) (pid : Pid)
  | detach (task : TaskHandle)
  | cloneAddressSpace (src dst : TaskHandle)
  | cloneFdTable (src dst : TaskHandle)
  | destroyFdTable (task : TaskHandle)
  | spawn (task : TaskHandle) (entry : Entry)
  | terminate (task : TaskHandle)
  | joinAll

namespace Request

/-- The task that a request is about, where it is about one that was known before. -/
def target? : Request → Option TaskHandle
  | createTask _ => none
  | destroyTask task => some task
  | attach task _ => some task
  | detach task => some task
  | cloneAddressSpace _ dst => some dst
  | cloneFdTable _ dst => some dst
  | destroyFdTable task => some task
  | spawn task _ => some task
  | terminate task => some task
  | joinAll => none

/-- The task that a request destroys, if it is there. -/
def destroyed? : Request → Option TaskHandle
  | destroyTask task => some task
  | _ => none

def isAttach : Request → Bool
  | attach _ _ => true
  | _ => false

end Request

/-- The handle of the task that was made. -/
def HostReply.created? : HostReply → Option TaskHandle
  | .created task => some task
  | _ => none

namespace ThreadHost

variable {t : ThreadHost} {requests : List Request}

/-- The same threads with another host. -/
def withHost (t : ThreadHost) (host : Host) : ThreadHost := { t with host := host }

/-- What a request is answered. Joining hands over the record of what the threads did. -/
def serve (t : ThreadHost) : Request → HostReply × ThreadHost
  | .createTask name => (.created (t.host.createTask name).1, t.withHost (t.host.createTask name).2)
  | .destroyTask task => (.nothing, t.withHost (t.host.destroyTask task))
  | .attach task pid => (.nothing, t.withHost (t.host.attach task pid))
  | .detach task => (.nothing, t.withHost (t.host.detach task))
  | .cloneAddressSpace src dst =>
    (.answer (t.host.cloneAddressSpace src dst).1,
      t.withHost (t.host.cloneAddressSpace src dst).2)
  | .cloneFdTable src dst =>
    (.answer (t.host.cloneFdTable src dst).1, t.withHost (t.host.cloneFdTable src dst).2)
  | .destroyFdTable task => (.nothing, t.withHost (t.host.destroyFdTable task))
  | .spawn task entry => (.answer (t.spawn task entry).1, (t.spawn task entry).2)
  | .terminate task => (.nothing, t.withHost (t.host.terminate task))
  | .joinAll => (.joined (HostRun.sorted t.joinAll.record), { t.joinAll with record := [] })

/-- A new host after these requests, the newest first. -/
def after : List Request → ThreadHost
  | [] => {}
  | request :: older => ((after older).serve request).2

/-- What a request is answered after the others. -/
def reply (request : Request) (older : List Request) : HostReply :=
  ((after older).serve request).1

/-- Handles given out, the newest first. -/
def issued : List Request → List TaskHandle
  | [] => []
  | request :: older => (reply request older).created?.toList ++ issued older

/-- Handles given out and not destroyed since, the newest first. -/
def held : List Request → List TaskHandle
  | [] => []
  | request :: older => (reply request older).created?.toList ++
      (held older).filter fun task => request.destroyed? ≠ some task

/-- The address space that a task was given. -/
def granted? (request : Request) (older : List Request) : Option Nat :=
  match request, reply request older with
  | .cloneAddressSpace _ dst, .answer none =>
    ((after (request :: older)).host.task? dst).bind (·.addressSpace)
  | _, _ => none

/-- Address spaces given to tasks, the newest first. -/
def granted : List Request → List Nat
  | [] => []
  | request :: older => (granted? request older).toList ++ granted older

end ThreadHost

/-! ### Scripts -/

namespace HostStep

/-- The request that a step of a script makes, unless it only looks at a record. -/
def request? (s : HostStep) (asked : Nat) : Option Request :=
  match s with
  | createTask name => some (.createTask name)
  | destroyTask handle => some (.destroyTask handle)
  | attach handle pid => some (.attach handle pid)
  | detach handle => some (.detach handle)
  | cloneAddressSpace src dst => some (.cloneAddressSpace src dst)
  | cloneFdTable src dst => some (.cloneFdTable src dst)
  | destroyFdTable handle => some (.destroyFdTable handle)
  | spawn handle kind => some (.spawn handle (kind.entry handle asked))
  | terminate handle => some (.terminate handle)
  | task _ => none
  | joinAll => some .joinAll

end HostStep

namespace HostRun

variable {r : HostRun}

/-- A step of a script is the request it makes. -/
theorem step_eq_serve {s : HostStep} {request : Request} (hs : s.request? r.asked = some request) :
    ((r.step s).1, (r.step s).2.threads) = r.threads.serve request := by
  cases s <;> cases hs <;> rfl

theorem threads_step {s : HostStep} (hs : s.request? r.asked = none) :
    (r.step s).2.threads = r.threads := by
  cases s <;> cases hs
  rfl

/-- What scripts see of the host is the host after some requests. -/
theorem run_serves (steps : List HostStep) {older : List Request}
    (hr : r.threads = ThreadHost.after older) :
    ∀ out ∈ r.run steps, ∃ requests, out.2 = (ThreadHost.after requests).host := by
  induction steps generalizing r older with
  | nil => exact fun out hout => by cases hout
  | cons s steps ih =>
    obtain ⟨requests, hnext⟩ :
        ∃ requests, (r.step s).2.threads = ThreadHost.after requests := by
      cases hs : s.request? r.asked with
      | none => exact ⟨older, (threads_step hs).trans hr⟩
      | some request =>
        have hserved := congrArg Prod.snd (step_eq_serve hs)
        rw [hr] at hserved
        exact ⟨request :: older, hserved⟩
    intro out hout
    rcases List.mem_cons.1 hout with rfl | hout
    · exact ⟨requests, congrArg ThreadHost.host hnext⟩
    · exact ih hnext out hout

end HostRun

/-! ### What a request can do to the host -/

namespace Host

/-- The tasks that are there, the newest first. -/
def handles (h : Host) : List TaskHandle := h.tasks.entries.map Prod.fst

theorem handles_modify (h : Host) (task : TaskHandle) (f : TaskRecord → TaskRecord) :
    (h.tasks.modify task f).entries.map Prod.fst = h.handles := by
  simp only [Assoc.modify, handles, List.map_map]
  refine List.map_congr_left fun e _ => ?_
  simp only [Function.comp_apply]
  split <;> rfl

theorem handles_erase (h : Host) (task : TaskHandle) :
    (h.tasks.erase task).entries.map Prod.fst = h.handles.filter fun t => some task ≠ some t := by
  simp only [Assoc.erase, handles, List.filter_map]
  refine congrArg _ (List.filter_congr fun e _ => ?_)
  simp [eq_comm]

/-- A task that is made comes first, and no other goes. -/
theorem Booked.handles_createTask {h : Host} (hb : h.Booked) (name : String) :
    (h.createTask name).2.handles = (h.createTask name).1 :: h.handles := by
  have hfresh : ∀ t ∈ h.handles, some (⟨h.nextTask⟩ : TaskHandle) ≠ some t := by
    rintro t ht he
    cases he
    exact Nat.lt_irrefl _ (hb.there _ ((h.tasks.contains_iff_mem _).2 ht))
  change ⟨h.nextTask⟩ :: (h.tasks.erase ⟨h.nextTask⟩).entries.map Prod.fst = _
  rw [handles_erase, List.filter_eq_self.2 fun t ht => decide_eq_true (hfresh t ht)]
  rfl

theorem handles_destroyTask (h : Host) (task : TaskHandle) :
    (h.destroyTask task).handles = h.handles.filter fun t => some task ≠ some t := by
  unfold destroyTask
  split
  · exact handles_erase h task
  · next hn =>
    refine (List.filter_eq_self.2 fun t ht => decide_eq_true ?_).symm
    rintro he
    cases he
    exact hn ((h.tasks.contains_iff_mem _).2 ht)

variable {h h' h'' : Host} {made gone target : Option TaskHandle} {entering : Nat}

/-- Nothing happens but that threads are counted and generations used up. -/
structure Idle (h h' : Host) : Prop where
  tasks : h'.tasks = h.tasks
  nextTask : h'.nextTask = h.nextTask
  nextSpace : h.nextSpace ≤ h'.nextSpace
  created : h'.counters.created = h.counters.created
  destroyed : h'.counters.destroyed = h.counters.destroyed

theorem Idle.refl (h : Host) : h.Idle h := ⟨rfl, rfl, Nat.le_refl _, rfl, rfl⟩

theorem Idle.trans (hi : h.Idle h') (hi' : h'.Idle h'') : h.Idle h'' :=
  ⟨hi'.tasks.trans hi.tasks, hi'.nextTask.trans hi.nextTask,
    Nat.le_trans hi.nextSpace hi'.nextSpace, hi'.created.trans hi.created,
    hi'.destroyed.trans hi.destroyed⟩

/-- What a request can do to the host, with the task that is made, the task that is destroyed if it
is there, the task that the request is about, and the number of threads that it may attach. -/
inductive Turn (h : Host) :
    Option TaskHandle → Option TaskHandle → Option TaskHandle → Nat → Host → Prop
  | made (name : String) : h.Turn (some (h.createTask name).1) none none 0 (h.createTask name).2
  | gone (task : TaskHandle) : h.Turn none (some task) (some task) 0 (h.destroyTask task)
  | edited (task : TaskHandle) (entering : Nat) (f : TaskRecord → TaskRecord)
      (space : ∀ record, (f record).addressSpace = record.addressSpace)
      (threads : ∀ record, (f record).threads ≤ record.threads + entering) :
      h.Turn none none (some task) entering { h with tasks := h.tasks.modify task f }
  | copied (dst : TaskHandle) :
      h.Turn none none (some dst) 0
        { h with
          nextSpace := h.nextSpace + 1
          tasks := h.tasks.modify dst fun record =>
            { record with addressSpace := some h.nextSpace } }
  | idle (target : Option TaskHandle) (h' : Host) (idle : h.Idle h') :
      h.Turn none none target 0 h'

/-- The tasks that are there afterwards. -/
theorem Turn.handles_eq (ht : h.Turn made gone target entering h') (hb : h.Booked) :
    h'.handles = made.toList ++ h.handles.filter fun t => gone ≠ some t := by
  have hall : h.handles.filter (fun t => (none : Option TaskHandle) ≠ some t) = h.handles :=
    List.filter_eq_self.2 fun _ _ => rfl
  cases ht with
  | made name => exact (hb.handles_createTask name).trans (congrArg _ hall.symm)
  | gone task => exact handles_destroyTask h task
  | edited task f space threads => exact (handles_modify h task _).trans hall.symm
  | copied dst => exact (handles_modify h dst _).trans hall.symm
  | idle target h' idle =>
    refine Eq.trans ?_ hall.symm
    rw [handles, idle.tasks, handles]

/-- Records of other tasks stay. -/
theorem Turn.steady (ht : h.Turn made gone target entering h') {t : TaskHandle}
    (hmade : made ≠ some t) (htarget : target ≠ some t) : h'.task? t = h.task? t := by
  cases ht with
  | made name => rw [task?_createTask, if_neg fun he => hmade (congrArg some he.symm)]
  | gone task => rw [task?_destroyTask, if_neg fun he => htarget (congrArg some he.symm)]
  | edited task f space threads =>
    exact (Assoc.get?_modify ..).trans (if_neg fun he => htarget (congrArg some he.symm))
  | copied dst =>
    exact (Assoc.get?_modify ..).trans (if_neg fun he => htarget (congrArg some he.symm))
  | idle target h' idle => rw [task?, idle.tasks, task?]

/-- The handle that is given out is the next one. -/
theorem Turn.issues (ht : h.Turn made gone target entering h') :
    (∀ task ∈ made, task.raw = h.nextTask) ∧
      h'.nextTask = h.nextTask + made.toList.length ∧
      h'.counters.created = h.counters.created + made.toList.length := by
  cases ht with
  | made name => exact ⟨fun task hm => (Option.some.inj hm) ▸ rfl, rfl, rfl⟩
  | gone task =>
    refine ⟨fun _ hm => (by cases hm), nextTask_destroyTask h task, ?_⟩
    unfold destroyTask
    split <;> rfl
  | edited task f space threads => exact ⟨fun _ hm => (by cases hm), rfl, rfl⟩
  | copied dst => exact ⟨fun _ hm => (by cases hm), rfl, rfl⟩
  | idle target h' idle => exact ⟨fun _ hm => (by cases hm), idle.nextTask, idle.created⟩

/-- A task has the address space that it had, or the request is about it and it gets the next. -/
theorem Turn.inherits (ht : h.Turn made gone target entering h') {t : TaskHandle}
    {record : TaskRecord} (hr : h'.task? t = some record) {g : Nat}
    (hg : record.addressSpace = some g) :
    (∃ old, h.task? t = some old ∧ old.addressSpace = some g) ∨
      target = some t ∧ g = h.nextSpace ∧ h.nextSpace < h'.nextSpace := by
  cases ht with
  | made name =>
    rw [task?_createTask] at hr
    split at hr
    · cases hr
      cases hg
    · exact Or.inl ⟨record, hr, hg⟩
  | gone task =>
    rw [task?_destroyTask] at hr
    split at hr
    · cases hr
    · exact Or.inl ⟨record, hr, hg⟩
  | edited task entering f space threads =>
    rw [task?, Assoc.get?_modify] at hr
    split at hr
    · obtain ⟨old, hold, rfl⟩ := Option.map_eq_some_iff.1 hr
      exact Or.inl ⟨old, hold, (space old).symm.trans hg⟩
    · exact Or.inl ⟨record, hr, hg⟩
  | copied dst =>
    rw [task?, Assoc.get?_modify] at hr
    split at hr
    · next he =>
      obtain ⟨old, -, rfl⟩ := Option.map_eq_some_iff.1 hr
      cases hg
      exact Or.inr ⟨congrArg some he.symm, rfl, Nat.lt_succ_self _⟩
    · exact Or.inl ⟨record, hr, hg⟩
  | idle target h' idle =>
    rw [task?, idle.tasks] at hr
    exact Or.inl ⟨record, hr, hg⟩

theorem Turn.nextSpace_le (ht : h.Turn made gone target entering h') :
    h.nextSpace ≤ h'.nextSpace := by
  cases ht with
  | made name => exact Nat.le_refl _
  | gone task => exact Nat.le_of_eq (nextSpace_destroyTask h task).symm
  | edited task f space threads => exact Nat.le_refl _
  | copied dst => exact Nat.le_succ _
  | idle target h' idle => exact idle.nextSpace

theorem Turn.threads_le (ht : h.Turn made gone target entering h') {bound : Nat}
    (hb : ∀ t record, h.task? t = some record → record.threads ≤ bound) :
    ∀ t record, h'.task? t = some record → record.threads ≤ bound + entering := by
  intro t record hr
  cases ht with
  | made name =>
    rw [task?_createTask] at hr
    split at hr
    · cases hr
      exact Nat.zero_le _
    · exact hb t record hr
  | gone task =>
    rw [task?_destroyTask] at hr
    split at hr
    · cases hr
    · exact hb t record hr
  | edited task entering f space threads =>
    rw [task?, Assoc.get?_modify] at hr
    split at hr
    · obtain ⟨old, hold, rfl⟩ := Option.map_eq_some_iff.1 hr
      exact Nat.le_trans (threads old) (Nat.add_le_add_right (hb t old hold) entering)
    · exact Nat.le_add_right_of_le (hb t record hr)
  | copied dst =>
    rw [task?, Assoc.get?_modify] at hr
    split at hr
    · obtain ⟨old, hold, rfl⟩ := Option.map_eq_some_iff.1 hr
      exact hb t old hold
    · exact hb t record hr
  | idle target h' idle =>
    rw [task?, idle.tasks] at hr
    exact hb t record hr

/-- The books are in order. -/
structure Sound (h : Host) : Prop where
  booked : h.Booked
  spaced : h.Spaced
  /-- No two tasks have the same address space. -/
  apart : ∀ {t u : TaskHandle} {ours theirs : TaskRecord} {g : Nat}, h.task? t = some ours →
    h.task? u = some theirs → ours.addressSpace = some g → theirs.addressSpace = some g → t = u

theorem sound_new : Sound {} where
  booked := booked_new
  spaced := ⟨fun _ _ hr => by cases hr⟩
  apart hr := by cases hr

theorem Booked.turn (hb : h.Booked) (ht : h.Turn made gone target entering h') : h'.Booked := by
  cases ht with
  | made name => exact hb.createTask name
  | gone task => exact hb.destroyTask task
  | edited task f space threads =>
    exact hb.keep rfl rfl (Assoc.size_modify ..) (fun _ => Assoc.contains_modify ..) rfl
  | copied dst =>
    exact hb.keep rfl rfl (Assoc.size_modify ..) (fun _ => Assoc.contains_modify ..) rfl
  | idle target h' idle =>
    exact hb.keep idle.created idle.destroyed (congrArg Assoc.size idle.tasks)
      (fun t => congrArg (Assoc.contains · t) idle.tasks) idle.nextTask

theorem Sound.turn (hs : h.Sound) (ht : h.Turn made gone target entering h') : h'.Sound where
  booked := hs.booked.turn ht
  spaced := by
    refine hs.spaced.of_tasks ht.nextSpace_le fun t record hr g hg => ?_
    rcases ht.inherits hr hg with hold | ⟨-, rfl, hlt⟩
    · exact Or.inr hold
    · exact Or.inl hlt
  apart {t u ours theirs g} ho hthem hg hg' := by
    rcases ht.inherits ho hg with ⟨ours₀, ho₀, hg₀⟩ | ⟨htarget, rfl, -⟩
    · rcases ht.inherits hthem hg' with ⟨theirs₀, hthem₀, hg₀'⟩ | ⟨-, rfl, -⟩
      · exact hs.apart ho₀ hthem₀ hg₀ hg₀'
      · exact absurd hg₀ (hs.spaced.next ho₀)
    · rcases ht.inherits hthem hg' with ⟨theirs₀, hthem₀, hg₀'⟩ | ⟨htarget', -, -⟩
      · exact absurd hg₀' (hs.spaced.next hthem₀)
      · exact Option.some.inj (htarget.symm.trans htarget')

end Host

namespace ThreadHost

variable {t : ThreadHost}

theorem idle_hostSpawn (h : Host) (task : TaskHandle) : h.Idle (h.spawn task).2 := by
  unfold Host.spawn
  split
  · exact .refl h
  · exact ⟨rfl, rfl, Nat.le_refl _, rfl, rfl⟩

theorem idle_spawn (t : ThreadHost) (task : TaskHandle) (entry : Entry) :
    t.host.Idle (t.spawn task entry).2.host := by
  have hs := idle_hostSpawn t.host task
  unfold spawn
  generalize t.host.spawn task = out at *
  obtain ⟨answer, host⟩ := out
  cases answer <;> exact hs

theorem idle_spawnWithin (t : ThreadHost) (start : TaskHandle × Entry) :
    t.host.Idle (t.spawnWithin start).host := by
  have hs := idle_spawn t start.1 start.2
  unfold spawnWithin
  generalize t.spawn start.1 start.2 = out at *
  obtain ⟨refusal, t'⟩ := out
  cases refusal <;> exact hs

/-- Threads call the host only to start more threads. -/
theorem idle_runThread (t : ThreadHost) (thread : String × Entry) :
    t.host.Idle (t.runThread thread).host := by
  unfold runThread
  suffices ∀ (starts : List (TaskHandle × Entry)) (u : ThreadHost),
      u.host.Idle (starts.foldl spawnWithin u).host from
    this thread.2.starts { t with record := t.record ++ [⟨thread.2.label, thread.1⟩] }
  intro starts
  induction starts with
  | nil => exact fun u => .refl u.host
  | cons start starts ih => exact fun u => (idle_spawnWithin u start).trans (ih _)

theorem idle_joinBatch (t : ThreadHost) : t.host.Idle t.joinBatch.host := by
  unfold joinBatch
  suffices ∀ (threads : List (String × Entry)) (u : ThreadHost),
      u.host.Idle (threads.foldl runThread u).host from this t.waiting { t with waiting := [] }
  intro threads
  induction threads with
  | nil => exact fun u => .refl u.host
  | cons thread threads ih => exact fun u => (idle_runThread u thread).trans (ih _)

theorem idle_joinAll (t : ThreadHost) : t.host.Idle t.joinAll.host := by
  suffices ∀ (fuel : Nat) (u : ThreadHost), u.host.Idle (joinBatches fuel u).host from
    this t.pending t
  intro fuel
  induction fuel with
  | zero => exact fun u => .refl u.host
  | succ fuel ih =>
    intro u
    rw [joinBatches]
    split
    · exact .refl u.host
    · exact (idle_joinBatch u).trans (ih _)

/-- Threads that a request may attach. -/
def entering (request : Request) : Nat := if request.isAttach then 1 else 0

theorem turn_cloneAddressSpace (h : Host) (src dst : TaskHandle) :
    h.Turn none none (some dst) 0 (h.cloneAddressSpace src dst).2 := by
  have hc := h.copiesSpace src dst
  generalize h.cloneAddressSpace src dst = out at hc ⊢
  cases hc with
  | refused n unknown next => exact .idle _ _ ⟨rfl, rfl, next, rfl, rfl⟩
  | done known there => exact .copied dst

theorem turn_cloneFdTable (h : Host) (src dst : TaskHandle) :
    h.Turn none none (some dst) 0 (h.cloneFdTable src dst).2 := by
  have hc := h.copiesFiles src dst
  generalize h.cloneFdTable src dst = out at hc ⊢
  cases hc with
  | refused unknown => exact .idle _ _ (.refl h)
  | done known there => exact .edited dst 0 _ (fun _ => rfl) fun _ => Nat.le_refl _

theorem serve_turn (t : ThreadHost) (request : Request) :
    t.host.Turn (t.serve request).1.created? request.destroyed? request.target?
      (entering request) (t.serve request).2.host := by
  cases request with
  | createTask name => exact .made name
  | destroyTask task => exact .gone task
  | attach task pid => exact .edited task 1 _ (fun _ => rfl) fun _ => Nat.le_refl _
  | detach task => exact .edited task 0 _ (fun _ => rfl) fun _ => Nat.sub_le ..
  | cloneAddressSpace src dst => exact turn_cloneAddressSpace t.host src dst
  | cloneFdTable src dst => exact turn_cloneFdTable t.host src dst
  | destroyFdTable task => exact .edited task 0 _ (fun _ => rfl) fun _ => Nat.le_refl _
  | spawn task entry => exact .idle _ _ (idle_spawn t task entry)
  | terminate task => exact .idle _ _ ⟨rfl, rfl, Nat.le_refl _, rfl, rfl⟩
  | joinAll => exact .idle _ _ (idle_joinAll t)

/-- The address space that a copy gives is the next one, and nothing else of the target changes. -/
theorem copied_space {src dst : TaskHandle}
    (hr : (t.serve (.cloneAddressSpace src dst)).1 = .answer none) :
    (∃ target, t.host.task? dst = some target ∧
        (t.serve (.cloneAddressSpace src dst)).2.host.task? dst =
          some { target with addressSpace := some t.host.nextSpace }) ∧
      (t.serve (.cloneAddressSpace src dst)).2.host.nextSpace = t.host.nextSpace + 1 := by
  have hc := t.host.copiesSpace src dst
  simp only [serve, withHost] at hr ⊢
  generalize t.host.cloneAddressSpace src dst = out at hc hr ⊢
  cases hc with
  | refused => cases hr
  | done known there => exact ⟨⟨_, there, Assoc.get?_modify_self there _⟩, rfl⟩

/-- What a run of requests keeps: the books are in order, and nothing that was given out will be
given out again. -/
structure Kept (requests : List Request) : Prop where
  sound : (after requests).host.Sound
  held : (after requests).host.handles = held requests
  created : (after requests).host.counters.created = (issued requests).length
  nextTask : (after requests).host.nextTask = (issued requests).length + 1
  issued_lt : ∀ task ∈ issued requests, task.raw < (after requests).host.nextTask
  issued_pairwise : (issued requests).Pairwise fun newer older => older.raw < newer.raw
  granted_lt : ∀ g ∈ granted requests, g < (after requests).host.nextSpace
  granted_pairwise : (granted requests).Pairwise fun newer older => older < newer
  threads : ∀ task record, (after requests).host.task? task = some record →
    record.threads ≤ requests.countP Request.isAttach

theorem granted?_eq {request : Request} {older : List Request} {g : Nat}
    (hg : granted? request older = some g) :
    g = (after older).host.nextSpace ∧
      (after (request :: older)).host.nextSpace = (after older).host.nextSpace + 1 := by
  unfold granted? at hg
  split at hg
  · next src dst hr =>
    obtain ⟨⟨target, -, htarget⟩, hnext⟩ := copied_space hr
    have hsame : (after (.cloneAddressSpace src dst :: older)).host.task? dst =
      some { target with addressSpace := some (after older).host.nextSpace } := htarget
    rw [hsame, Option.bind_some] at hg
    exact ⟨(Option.some.inj hg).symm, hnext⟩
  · cases hg

theorem kept_nil : Kept [] where
  sound := Host.sound_new
  held := rfl
  created := rfl
  nextTask := rfl
  issued_lt _ hm := by cases hm
  issued_pairwise := List.Pairwise.nil
  granted_lt _ hm := by cases hm
  granted_pairwise := List.Pairwise.nil
  threads _ _ hr := by cases hr

theorem Kept.cons {older : List Request} (hk : Kept older) (request : Request) :
    Kept (request :: older) := by
  have ht := serve_turn (after older) request
  obtain ⟨hmade, hnext, hcreated⟩ := ht.issues
  have hspace := ht.nextSpace_le
  refine ⟨hk.sound.turn ht, ?_, ?_, ?_, fun task hm => ?_, ?_, fun g hm => ?_, ?_, ?_⟩
  · rw [ThreadHost.held, ← hk.held]
    exact ht.handles_eq hk.sound.booked
  · rw [issued, List.length_append, Nat.add_comm, ← hk.created]
    exact hcreated
  · rw [issued, List.length_append, Nat.add_assoc, Nat.add_comm, ← hk.nextTask]
    exact hnext
  · change task.raw < ((after older).serve request).2.host.nextTask
    rw [hnext]
    rcases List.mem_append.1 hm with hm | hm
    · have hm := Option.mem_toList.1 hm
      rw [hmade task hm, show ((after older).serve request).1.created? = some task from hm]
      exact Nat.lt_succ_self _
    · exact Nat.lt_add_right _ (hk.issued_lt task hm)
  · refine List.pairwise_append.2 ⟨?_, hk.issued_pairwise, fun newer hn old ho => ?_⟩
    · cases (reply request older).created? with
      | none => exact List.Pairwise.nil
      | some task => exact List.pairwise_singleton ..
    · rw [hmade newer (Option.mem_toList.1 hn)]
      exact hk.issued_lt old ho
  · rcases List.mem_append.1 hm with hm | hm
    · obtain ⟨rfl, hnextSpace⟩ := granted?_eq (Option.mem_toList.1 hm)
      rw [hnextSpace]
      exact Nat.lt_succ_self _
    · exact Nat.lt_of_lt_of_le (hk.granted_lt g hm) hspace
  · refine List.pairwise_append.2 ⟨?_, hk.granted_pairwise, fun newer hn old ho => ?_⟩
    · cases granted? request older with
      | none => exact List.Pairwise.nil
      | some g => exact List.pairwise_singleton ..
    · obtain ⟨rfl, -⟩ := granted?_eq (Option.mem_toList.1 hn)
      exact hk.granted_lt old ho
  · rw [List.countP_cons]
    exact ht.threads_le hk.threads

theorem kept : ∀ requests, Kept requests
  | [] => kept_nil
  | request :: older => (kept older).cons request

end ThreadHost

end Lifecycle
