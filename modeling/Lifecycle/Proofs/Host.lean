import Lifecycle.Proofs.Kernel.Tasks

/-! What the log of calls says of the host. Replaying the log gives the host that the calls
were made to, one call after the other; if each found the tasks that it names, no task is
named again once it is destroyed, and the counters of the host count the calls. -/

namespace Lifecycle

namespace Assoc

variable {κ α : Type} [DecidableEq κ]

theorem contains_iff_mem (m : Assoc κ α) (k : κ) :
    m.contains k = true ↔ k ∈ m.entries.map Prod.fst := by
  rw [contains, get?, Option.isSome_iff_ne_none, ne_eq, List.lookup_eq_none_iff]
  simp only [List.mem_map, bne_iff_ne, not_forall, not_not, exists_prop, eq_comm (a := k)]

theorem size_modify (m : Assoc κ α) (k : κ) (f : α → α) : (m.modify k f).size = m.size :=
  List.length_map ..

/-- A key that is there is there once. -/
theorem size_erase {m : Assoc κ α} {k : κ} (hk : m.contains k = true) :
    (m.erase k).size + 1 = m.size := by
  have hone : m.entries.countP (fun e => !decide (e.1 ≠ k)) = 1 := by
    have hcount := List.count_eq_one_of_mem m.nodup ((m.contains_iff_mem k).1 hk)
    rw [List.count_eq_countP, List.countP_map] at hcount
    rw [← hcount]
    refine List.countP_congr fun e _ => ?_
    simp
  have hsplit := List.length_eq_countP_add_countP (fun e : κ × α => decide (e.1 ≠ k))
    (l := m.entries)
  simp only [size, erase, ← List.countP_eq_length_filter]
  simp only [Bool.not_eq_true] at hsplit
  rw [hsplit, ← hone]
  simp

theorem size_insert {m : Assoc κ α} {k : κ} (hk : m.contains k = false) (v : α) :
    (m.insert k v).size = m.size + 1 := by
  have hsame : m.entries.filter (·.1 ≠ k) = m.entries := List.filter_eq_self.2 fun e he => by
    refine decide_eq_true fun hek => ?_
    rw [(m.contains_iff_mem k).2 (List.mem_map.2 ⟨e, he, hek⟩)] at hk
    cases hk
  simp only [size, insert, erase, hsame, List.length_cons]

end Assoc

namespace HostCall

/-- The tasks that a call names. -/
def tasks : HostCall → List TaskHandle
  | createTask _ task => [task]
  | refuseTask _ _ => []
  | attach task _ => [task]
  | detach task => [task]
  | cloneAddressSpace src dst _ => [src, dst]
  | cloneFdTable src dst _ => [src, dst]
  | destroyFdTable task => [task]
  | destroyTask task => [task]
  | spawn task _ => [task]
  | terminate task => [task]

/-- Whether a thread was started. -/
def isStart : HostCall → Bool
  | spawn _ none => true
  | _ => false

/-- Whether a thread was started or ended. -/
def isWork (call : HostCall) : Bool := call.isStart || call.isTermination

end HostCall

namespace Host

/-- The host after a call that was answered so. -/
def after (h : Host) : HostCall → Host
  | .createTask name _ => (h.createTask name).2
  | .attach task pid => h.attach task pid
  | .detach task => h.detach task
  | .cloneAddressSpace src dst none => (h.cloneAddressSpace src dst).2
  | .cloneFdTable src dst none => (h.cloneFdTable src dst).2
  | .destroyFdTable task => h.destroyFdTable task
  | .destroyTask task => h.destroyTask task
  | .spawn task none => (h.spawn task).2
  | .terminate task => h.terminate task
  | _ => h

/-- The host after all calls of a log, the newest first. -/
def replay : List HostCall → Host
  | [] => {}
  | call :: older => (replay older).after call

/-- Whether a call is in order: a new task gets the next handle, one that is destroyed is there
with no thread attached, and a call that is no termination names tasks that are there. -/
def Admits (h : Host) : HostCall → Prop
  | .createTask _ task => task = ⟨h.nextTask⟩
  | .destroyTask task => ∃ record, h.task? task = some record ∧ record.threads = 0
  | .terminate _ => True
  | call => ∀ t ∈ call.tasks, h.tasks.contains t = true

/-- Each call of a log was in order when it was made. -/
def Heeded : List HostCall → Prop
  | [] => True
  | call :: older => (replay older).Admits call ∧ Heeded older

/-- The counters agree with the tasks that there are, whose handles were given out. -/
structure Booked (h : Host) : Prop where
  created : h.counters.created = h.counters.destroyed + h.tasks.size
  there : ∀ t, h.tasks.contains t = true → t.raw < h.nextTask

theorem booked_new : Booked {} := ⟨rfl, fun t ht => by cases ht⟩

/-- The same tasks are there, none of them made or destroyed. -/
theorem Booked.keep {h h' : Host} (hb : h.Booked)
    (hcreated : h'.counters.created = h.counters.created)
    (hdestroyed : h'.counters.destroyed = h.counters.destroyed)
    (hsize : h'.tasks.size = h.tasks.size)
    (hcontains : ∀ t, h'.tasks.contains t = h.tasks.contains t)
    (hnext : h'.nextTask = h.nextTask) : h'.Booked where
  created := by rw [hcreated, hdestroyed, hsize]; exact hb.created
  there t ht := hnext ▸ hb.there t (hcontains t ▸ ht)

theorem Booked.createTask {h : Host} (hb : h.Booked) (name : String) :
    (h.createTask name).2.Booked where
  created := by
    have hfresh : h.tasks.contains ⟨h.nextTask⟩ = false :=
      Bool.eq_false_iff.2 fun ht => Nat.lt_irrefl _ (hb.there _ ht)
    change h.counters.created + 1 = h.counters.destroyed + (h.tasks.insert _ _).size
    rw [Assoc.size_insert hfresh, hb.created]
    omega
  there t ht := by
    rw [Kernel.contains_createTask, Bool.or_eq_true, decide_eq_true_iff] at ht
    change t.raw < h.nextTask + 1
    rcases ht with rfl | ht
    · exact Nat.lt_succ_self _
    · exact Nat.lt_succ_of_lt (hb.there t ht)

theorem contains_destroyTask (h : Host) (task t : TaskHandle) :
    (h.destroyTask task).tasks.contains t = (!decide (t = task) && h.tasks.contains t) := by
  rw [Assoc.contains, ← task?, task?_destroyTask, Assoc.contains, ← task?]
  by_cases he : t = task <;> simp [he]

theorem nextTask_destroyTask (h : Host) (task : TaskHandle) :
    (h.destroyTask task).nextTask = h.nextTask := by
  unfold destroyTask
  split <;> rfl

theorem Booked.destroyTask {h : Host} (hb : h.Booked) (task : TaskHandle) :
    (h.destroyTask task).Booked where
  created := by
    have hcreated := hb.created
    unfold Host.destroyTask
    split
    · next ht =>
      have hsize := Assoc.size_erase ht
      dsimp only
      omega
    · exact hcreated
  there t ht := by
    rw [contains_destroyTask, Bool.and_eq_true] at ht
    exact nextTask_destroyTask h task ▸ hb.there t ht.2

/-- What the counters and the handles of a host have to do with the calls made to it. -/
structure Counted (h : Host) (calls : List HostCall) : Prop where
  created : h.counters.created = h.counters.destroyed + h.tasks.size
  spawned : h.counters.spawned = calls.countP HostCall.isStart
  terminated : h.counters.terminated = calls.countP HostCall.isTermination
  there : ∀ t, h.tasks.contains t = true → t.raw < h.nextTask
  named : ∀ call ∈ calls, call.isTermination = false → ∀ t ∈ call.tasks, t.raw < h.nextTask
  gone : ∀ t, .destroyTask t ∈ calls → h.tasks.contains t = false

variable {h : Host} {calls older : List HostCall} {call : HostCall}

theorem Counted.booked (hc : h.Counted calls) : h.Booked := ⟨hc.created, hc.there⟩

/-- A call that makes and destroys no task. -/
theorem Counted.keep (hc : h.Counted calls) {h' : Host}
    (hcounters : h'.counters = { h.counters with
      spawned := h.counters.spawned + (if call.isStart then 1 else 0)
      terminated := h.counters.terminated + (if call.isTermination then 1 else 0) })
    (hsize : h'.tasks.size = h.tasks.size)
    (hcontains : ∀ t, h'.tasks.contains t = h.tasks.contains t)
    (hnext : h.nextTask = h'.nextTask)
    (hnamed : call.isTermination = false → ∀ t ∈ call.tasks, h.tasks.contains t = true)
    (hgone : ∀ t, call ≠ .destroyTask t) : h'.Counted (call :: calls) := by
  have hb := hc.booked.keep (by rw [hcounters]) (by rw [hcounters]) hsize hcontains hnext.symm
  refine ⟨hb.created, ?_, ?_, hb.there, fun c hm hterm t ht => ?_, fun t hm => ?_⟩
  · rw [hcounters, List.countP_cons, ← hc.spawned]
  · rw [hcounters, List.countP_cons, ← hc.terminated]
  · rw [← hnext]
    rcases List.mem_cons.1 hm with rfl | hm
    · exact hc.there t (hnamed hterm t ht)
    · exact hc.named c hm hterm t ht
  · rw [hcontains]
    exact hc.gone t ((List.mem_cons.1 hm).resolve_left fun he => hgone t he.symm)

theorem Counted.createTask (hc : h.Counted calls) (name : String) :
    (h.createTask name).2.Counted (.createTask name ⟨h.nextTask⟩ :: calls) := by
  have hb := hc.booked.createTask name
  have hnext : (h.createTask name).2.nextTask = h.nextTask + 1 := rfl
  refine ⟨hb.created, ?_, ?_, hb.there, fun c hm hterm t ht => ?_, fun t hm => ?_⟩
  · rw [List.countP_cons]
    exact hc.spawned
  · rw [List.countP_cons]
    exact hc.terminated
  · rw [hnext]
    rcases List.mem_cons.1 hm with rfl | hm
    · obtain rfl := List.mem_singleton.1 ht
      exact Nat.lt_succ_self _
    · exact Nat.lt_succ_of_lt (hc.named c hm hterm t ht)
  · have hm := (List.mem_cons.1 hm).resolve_left fun he => by cases he
    have hlt := hc.named _ hm rfl t List.mem_cons_self
    rw [Kernel.contains_createTask, hc.gone t hm, Bool.or_false, decide_eq_false_iff_not]
    rintro rfl
    exact Nat.lt_irrefl _ hlt

theorem Counted.destroyTask (hc : h.Counted calls) {task : TaskHandle}
    (ht : h.tasks.contains task = true) :
    (h.destroyTask task).Counted (.destroyTask task :: calls) := by
  have hb := hc.booked.destroyTask task
  have hd : h.destroyTask task = { h with
      tasks := h.tasks.erase task
      counters := { h.counters with destroyed := h.counters.destroyed + 1 } } := if_pos ht
  refine ⟨hb.created, ?_, ?_, hb.there, fun c hm hterm t hmem => ?_, fun t hm => ?_⟩
  · rw [List.countP_cons, hd]
    exact hc.spawned
  · rw [List.countP_cons, hd]
    exact hc.terminated
  · rw [nextTask_destroyTask]
    rcases List.mem_cons.1 hm with rfl | hm
    · obtain rfl := List.mem_singleton.1 hmem
      exact hc.there _ ht
    · exact hc.named c hm hterm t hmem
  · rw [contains_destroyTask]
    rcases List.mem_cons.1 hm with he | hm
    · cases he
      simp
    · rw [hc.gone t hm, Bool.and_false]

/-- One more call that is in order. -/
theorem Counted.after (hc : h.Counted calls) (ha : h.Admits call) :
    (h.after call).Counted (call :: calls) := by
  cases call with
  | createTask name task =>
    have he : task = ⟨h.nextTask⟩ := ha
    subst he
    exact hc.createTask name
  | refuseTask name errno =>
    exact hc.keep rfl rfl (fun _ => rfl) rfl (fun _ => ha) fun _ he => by cases he
  | attach task pid =>
    exact hc.keep rfl (Assoc.size_modify ..) (fun _ => Assoc.contains_modify ..) rfl (fun _ => ha)
      fun _ he => by cases he
  | detach task =>
    exact hc.keep rfl (Assoc.size_modify ..) (fun _ => Assoc.contains_modify ..) rfl (fun _ => ha)
      fun _ he => by cases he
  | cloneAddressSpace src dst refusal =>
    cases refusal with
    | some errno => exact hc.keep rfl rfl (fun _ => rfl) rfl (fun _ => ha) fun _ he => by cases he
    | none =>
      have hsrc : h.tasks.contains src = true := ha src (by simp [HostCall.tasks])
      have hdst : h.tasks.contains dst = true := ha dst (by simp [HostCall.tasks])
      have hk : h.after (.cloneAddressSpace src dst none) = { h with
          nextSpace := h.nextSpace + 1
          tasks := h.tasks.modify dst fun record =>
            { record with addressSpace := some h.nextSpace } } := by
        simp [Host.after, cloneAddressSpace, hsrc, hdst]
      rw [hk]
      exact hc.keep rfl (Assoc.size_modify ..) (fun _ => Assoc.contains_modify ..) rfl
        (fun _ => ha) fun _ he => by cases he
  | cloneFdTable src dst refusal =>
    cases refusal with
    | some errno => exact hc.keep rfl rfl (fun _ => rfl) rfl (fun _ => ha) fun _ he => by cases he
    | none =>
      have hsrc : h.tasks.contains src = true := ha src (by simp [HostCall.tasks])
      have hdst : h.tasks.contains dst = true := ha dst (by simp [HostCall.tasks])
      obtain ⟨source, hsource⟩ := (h.contains_iff src).1 hsrc
      have hk : h.after (.cloneFdTable src dst none) = { h with
          tasks := h.tasks.modify dst fun record =>
            { record with openFiles := source.openFiles } } := by
        simp [Host.after, cloneFdTable, hsource, hdst]
      rw [hk]
      exact hc.keep rfl (Assoc.size_modify ..) (fun _ => Assoc.contains_modify ..) rfl
        (fun _ => ha) fun _ he => by cases he
  | destroyFdTable task =>
    exact hc.keep rfl (Assoc.size_modify ..) (fun _ => Assoc.contains_modify ..) rfl (fun _ => ha)
      fun _ he => by cases he
  | destroyTask task =>
    obtain ⟨record, hr, -⟩ := ha
    exact hc.destroyTask ((h.contains_iff task).2 ⟨record, hr⟩)
  | spawn task refusal =>
    cases refusal with
    | some errno => exact hc.keep rfl rfl (fun _ => rfl) rfl (fun _ => ha) fun _ he => by cases he
    | none =>
      obtain ⟨record, hr⟩ := (h.contains_iff task).1 (ha task List.mem_cons_self)
      have hk : h.after (.spawn task none) = { h with
          counters := { h.counters with spawned := h.counters.spawned + 1 } } := by
        simp [Host.after, spawn, hr]
      rw [hk]
      exact hc.keep rfl rfl (fun _ => rfl) rfl (fun _ => ha) fun _ he => by cases he
  | terminate task =>
    exact hc.keep rfl rfl (fun _ => rfl) rfl (fun hn => by cases hn) fun _ he => by cases he

theorem counted_of_heeded (hh : Heeded calls) : (replay calls).Counted calls := by
  induction calls with
  | nil =>
    refine ⟨rfl, rfl, rfl, fun t ht => ?_, fun c hm => ?_, fun t hm => ?_⟩
    · cases ht
    · cases hm
    · cases hm
  | cons call older ih => exact (ih hh.2).after hh.1

theorem heeded_append {newer : List HostCall} (hh : Heeded (newer ++ older)) : Heeded older := by
  induction newer with
  | nil => exact hh
  | cons _ _ ih => exact ih hh.2

/-- No call but a termination names a task that has been destroyed. -/
theorem terminate_of_destroyed {newer : List HostCall} (hh : Heeded (newer ++ call :: older))
    {t : TaskHandle} (ht : .destroyTask t ∈ older) (hn : t ∈ call.tasks) :
    call = .terminate t := by
  obtain ⟨hadmits, hold⟩ := heeded_append hh
  have hc := counted_of_heeded hold
  have hgone := hc.gone t ht
  have hthere : ∀ {c : Prop}, (∀ u ∈ call.tasks, (replay older).tasks.contains u = true) → c :=
    fun hall => absurd (hall t hn) (hgone ▸ Bool.false_ne_true)
  cases call with
  | createTask name task =>
    have he : task = ⟨(replay older).nextTask⟩ := hadmits
    have hlt := hc.named _ ht rfl t List.mem_cons_self
    rw [List.mem_singleton.1 hn, he] at hlt
    exact absurd hlt (Nat.lt_irrefl _)
  | destroyTask task =>
    obtain ⟨record, hr, -⟩ := hadmits
    obtain rfl := List.mem_singleton.1 hn
    rw [(contains_iff _ t).2 ⟨record, hr⟩] at hgone
    cases hgone
  | terminate task => rw [List.mem_singleton.1 hn]
  | _ => exact hthere hadmits

/-- A task that is destroyed is there, and no thread is attached to it. -/
theorem unmanned_of_destroyed {newer : List HostCall} {task : TaskHandle}
    (hh : Heeded (newer ++ .destroyTask task :: older)) :
    ∃ record, (replay older).task? task = some record ∧ record.threads = 0 :=
  (heeded_append hh).1

end Host

end Lifecycle
