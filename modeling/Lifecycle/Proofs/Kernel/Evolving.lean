import Lifecycle.Proofs.Kernel.Lasting

/-! What operations of a table come to: elementary changes, one after the other. Most leave
every block, its task and its pid in place; the others take a pid or give it back, make a
block, give a reference back or shut the table down. Nothing is asked of the callers, who may
give back references that nobody holds. -/

namespace Lifecycle

/-- A reference given back: on which block, and whether it was the last. -/
structure Release where
  block : BlockId
  last : Bool
deriving DecidableEq

namespace Kernel

/-- No pid is taken or freed, no block made or torn down, no count of references comes to zero
or leaves it, and the host is not called. -/
structure Tame (k k' : Kernel) : Prop where
  live : k'.live = k.live
  pids : k'.pids = k.pids
  size : k'.blocks.size = k.blocks.size
  pid : ∀ b, (k'.block b).pid = (k.block b).pid
  task : ∀ b, (k'.block b).task = (k.block b).task
  taskReleased : ∀ b, (k'.block b).taskReleased = (k.block b).taskReleased
  vacant : ∀ b, (k'.block b).refCount = 0 ↔ (k.block b).refCount = 0
  host : k'.host = k.host
  calls : k'.calls = k.calls
  fault : ∀ {p}, k'.fault = some (.differentBlock p) → k.fault = some (.differentBlock p)

/-- The host is called about tasks that it may have, makes none and destroys none. -/
structure Calls (k k' : Kernel) : Prop where
  table : k'.table = k.table
  nextTask : k'.host.nextTask = k.host.nextTask
  tasks : ∀ t, k'.host.tasks.contains t = k.host.tasks.contains t
  calls : ∃ call, k'.calls = call :: k.calls ∧ ∀ t, call ≠ .destroyTask t

/-- An elementary change of a table, with the pids taken for blocks to come before and after
it, and the reference that is given back in it. Tasks are called about if `busy` allows it.
The last kind leaves a block that has no references any more where it is. -/
inductive Change (busy : Prop) : Kernel → List Pid → List Release → Kernel → List Pid → Prop
  | tame {k k' : Kernel} {r : List Pid} (ht : k.Tame k') : Change busy k r [] k' r
  | called {k k' : Kernel} {r : List Pid} (hb : busy) (hc : k.Calls k') : Change busy k r [] k' r
  | refused {k : Kernel} {r : List Pid} {name : String} {errno : Errno} :
      Change busy k r [] (k.log (.refuseTask name errno)) r
  | reserved {k k' : Kernel} {r : List Pid} {p : Pid} (got : k.reserve = (.ok p, k')) :
      Change busy k r [] k' (p :: r)
  | unreserved {k : Kernel} {r : List Pid} {p : Pid} :
      Change busy k (p :: r) [] (k.unreserve p) r
  | made {k : Kernel} {r : List Pid} {p : Pid} {name : String} :
      Change busy k (p :: r) [] (k.make p name none).2 r
  | shut {k : Kernel} {r : List Pid} (hb : busy) : Change busy k r [] k.shutdown.2 r
  | released {k : Kernel} {r : List Pid} {b : BlockId} :
      Change busy k r [⟨b, (k.release b).1⟩] (k.release b).2 r
  | forgone {k : Kernel} {r : List Pid} {b : BlockId} :
      Change busy k r [⟨b, (k.blocks.release b).1⟩] (k.update b .released) r

/-- Elementary changes, one after the other. -/
inductive Does (busy : Prop) : Kernel → List Pid → List Release → Kernel → List Pid → Prop
  | done {k : Kernel} {r : List Pid} : Does busy k r [] k r
  | next {k k₁ k' : Kernel} {r r₁ r' : List Pid} {ds ds' : List Release}
      (change : k.Change busy r ds k₁ r₁) (rest : Does busy k₁ r₁ ds' k' r') :
      Does busy k r (ds ++ ds') k' r'

/-- One table comes of another by elementary changes, with the same pids taken for blocks to
come. -/
def Evolves (busy : Prop) (k k' : Kernel) : Prop := ∀ r, ∃ ds, k.Does busy r ds k' r

variable {k k₁ k' : Kernel} {busy : Prop} {r r₁ r' : List Pid} {ds ds' : List Release}

/-! ### Chains of changes -/

theorem Does.trans (h : k.Does busy r ds k₁ r₁) (h' : k₁.Does busy r₁ ds' k' r') :
    k.Does busy r (ds ++ ds') k' r' := by
  induction h with
  | done => exact h'
  | next change _ ih =>
    rw [List.append_assoc]
    exact .next change (ih h')

theorem Change.does (h : k.Change busy r ds k' r') : k.Does busy r ds k' r' := by
  simpa using Does.next h .done

theorem Does.mono {busy' : Prop} (hbusy : busy → busy') (h : k.Does busy r ds k' r') :
    k.Does busy' r ds k' r' := by
  induction h with
  | done => exact .done
  | next change _ ih =>
    refine .next ?_ ih
    cases change with
    | tame ht => exact .tame ht
    | called hb hc => exact .called (hbusy hb) hc
    | refused => exact .refused
    | reserved got => exact .reserved got
    | unreserved => exact .unreserved
    | made => exact .made
    | shut hb => exact .shut (hbusy hb)
    | released => exact .released
    | forgone => exact .forgone

/-- Where tasks may be called about, none has to be. -/
theorem Does.loosen (h : k.Does False r ds k' r') : k.Does busy r ds k' r' := h.mono False.elim

theorem does_release (k : Kernel) (b : BlockId) (r : List Pid) :
    k.Does False r [⟨b, (k.release b).1⟩] (k.release b).2 r :=
  Change.released.does

namespace Evolves

theorem refl (k : Kernel) : k.Evolves busy k := fun _ => ⟨[], .done⟩

theorem trans (h : k.Evolves busy k₁) (h' : k₁.Evolves busy k') : k.Evolves busy k' := by
  intro r
  obtain ⟨ds, hd⟩ := h r
  obtain ⟨ds', hd'⟩ := h' r
  exact ⟨ds ++ ds', hd.trans hd'⟩

theorem loosen (h : k.Evolves False k') : k.Evolves busy k' :=
  fun r => (h r).imp fun _ hd => hd.loosen

end Evolves

theorem Tame.evolves (h : k.Tame k') : k.Evolves False k' := fun _ => ⟨[], (Change.tame h).does⟩

theorem Calls.evolves (h : k.Calls k') : k.Evolves True k' :=
  fun _ => ⟨[], (Change.called trivial h).does⟩

theorem evolves_release (k : Kernel) (b : BlockId) : k.Evolves False (k.release b).2 :=
  fun r => ⟨_, does_release k b r⟩

theorem evolves_shutdown (k : Kernel) : k.Evolves True k.shutdown.2 :=
  fun _ => ⟨[], (Change.shut trivial).does⟩

/-! ### Tame changes -/

namespace Tame

theorem refl (k : Kernel) : k.Tame k :=
  ⟨rfl, rfl, rfl, fun _ => rfl, fun _ => rfl, fun _ => rfl, fun _ => .rfl, rfl, rfl, id⟩

theorem trans (h : k.Tame k₁) (h' : k₁.Tame k') : k.Tame k' where
  live := h'.live.trans h.live
  pids := h'.pids.trans h.pids
  size := h'.size.trans h.size
  pid b := (h'.pid b).trans (h.pid b)
  task b := (h'.task b).trans (h.task b)
  taskReleased b := (h'.taskReleased b).trans (h.taskReleased b)
  vacant b := (h'.vacant b).trans (h.vacant b)
  host := h'.host.trans h.host
  calls := h'.calls.trans h.calls
  fault hf := h.fault (h'.fault hf)

/-- Changes of no account to pids and tasks are tame, if the host is not called and no check
breaks on the way. -/
theorem of_alike (h : k.Alike k') (hh : k'.host = k.host) (hc : k'.calls = k.calls)
    (hf : ∀ {p}, k'.fault = some (.differentBlock p) → k.fault = some (.differentBlock p)) :
    k.Tame k' :=
  ⟨h.live, h.pids, h.size, h.pid, h.task, h.taskReleased, h.vacant, hh, hc, hf⟩

/-- A block changes in no more than its flags and its parent. -/
theorem of_update (b : BlockId) (f : Block → Block)
    (hf : ∀ x, (f x).pid = x.pid ∧ (f x).task = x.task ∧
      (f x).taskReleased = x.taskReleased ∧ (f x).refCount = x.refCount) :
    k.Tame (k.update b f) :=
  .of_alike (.of_update b f hf) rfl rfl id

theorem retained {b : BlockId} (hz : (k.block b).refCount ≠ 0) :
    k.Tame (k.update b .retained) :=
  .of_alike (.retained hz) rfl rfl id

/-- Links may change. -/
theorem with_family (k : Kernel) (family : Family) : k.Tame { k with family := family } :=
  ⟨rfl, rfl, rfl, fun _ => rfl, fun _ => rfl, fun _ => rfl, fun _ => .rfl, rfl, rfl, id⟩

theorem halt {fault : Fault} (hf : ∀ p, fault ≠ .differentBlock p) : k.Tame (k.halt fault) := by
  refine .of_alike (.halt ..) rfl rfl fun {p} hp => ?_
  unfold Kernel.halt at hp
  cases hk : k.fault with
  | none =>
    rw [hk] at hp
    exact absurd (Option.some.inj hp) (hf p)
  | some first =>
    rw [hk] at hp
    exact hp

end Tame

theorem tame_retain (k : Kernel) (b : BlockId) : k.Tame (k.retain b) := by
  rw [retain_eq]
  split
  · exact .halt fun _ h => by cases h
  · next hz => exact .retained hz

theorem tame_attach (k : Kernel) (c q : BlockId) : k.Tame (k.attach c q) := by
  unfold attach
  split
  · next family hf =>
    exact (Tame.with_family k family).trans
      (.of_update c (·.adopt (k.block q).pid) fun _ => ⟨rfl, rfl, rfl, rfl⟩)
  · next fault hf =>
    refine .halt fun p hp => ?_
    subst hp
    unfold Family.attach at hf
    split at hf <;> cases hf

theorem tame_beginExit (k : Kernel) (b : BlockId) : k.Tame (k.beginExit b) := by
  have hhalt : ∀ {k₀ : Kernel} {fault : Fault} {p : Prop} [Decidable p],
      (∀ q, fault ≠ .differentBlock q) → k₀.Tame (if p then k₀.halt fault else k₀) := by
    intro k₀ fault p _ hf
    split
    · exact .halt hf
    · exact .refl k₀
  unfold beginExit
  exact ((hhalt fun _ h => by cases h).trans (hhalt fun _ h => by cases h)).trans
    (.of_update b (fun x => { x with exiting := true }) fun _ => ⟨rfl, rfl, rfl, rfl⟩)

theorem tame_collected (k : Kernel) (b : BlockId) : k.Tame (k.update b Block.collected) :=
  .of_update b _ fun _ => ⟨rfl, rfl, rfl, rfl⟩

/-! ### Calls to the host -/

/-- One call that makes and destroys no task. -/
theorem Calls.of_alike {call : HostCall} (h : k.Alike k') (ht : k'.table = k.table)
    (hc : k'.calls = call :: k.calls) (hd : ∀ t, call ≠ .destroyTask t) : k.Calls k' :=
  ⟨ht, h.nextTask, h.tasks, call, hc, hd⟩

theorem calls_refuseTask (k : Kernel) (name : String) (errno : Errno) :
    k.Calls (k.log (.refuseTask name errno)) :=
  ⟨rfl, rfl, fun _ => rfl, _, rfl, fun _ h => by cases h⟩

theorem calls_attachThread (k : Kernel) (task : TaskHandle) (pid : Pid) :
    k.Calls (k.attachThread task pid) :=
  .of_alike (.attachThread ..) rfl rfl fun _ h => by cases h

theorem calls_detachThread (k : Kernel) (task : TaskHandle) : k.Calls (k.detachThread task) :=
  .of_alike (.detachThread ..) rfl rfl fun _ h => by cases h

theorem calls_terminateThread (k : Kernel) (task : TaskHandle) :
    k.Calls (k.terminateThread task) :=
  .of_alike (.terminateThread ..) rfl rfl fun _ h => by cases h

theorem calls_cloneAddressSpace (k : Kernel) (src dst : TaskHandle) (refusal : Option Errno) :
    k.Calls (k.cloneAddressSpace src dst refusal).2 := by
  have ha := Alike.cloneAddressSpace k src dst refusal
  cases refusal with
  | some errno => exact .of_alike ha (table_cloneAddressSpace ..) rfl fun _ h => by cases h
  | none => exact .of_alike ha (table_cloneAddressSpace ..) rfl fun _ h => by cases h

theorem calls_cloneFdTable (k : Kernel) (src dst : TaskHandle) (refusal : Option Errno) :
    k.Calls (k.cloneFdTable src dst refusal).2 := by
  have ha := Alike.cloneFdTable k src dst refusal
  cases refusal with
  | some errno => exact .of_alike ha (table_cloneFdTable ..) rfl fun _ h => by cases h
  | none => exact .of_alike ha (table_cloneFdTable ..) rfl fun _ h => by cases h

theorem calls_spawnThread (k : Kernel) (task : TaskHandle) (refusal : Option Errno) :
    k.Calls (k.spawnThread task refusal).2 := by
  have ha := Alike.spawnThread k task refusal
  have ht := table_spawnThread k task refusal
  cases refusal with
  | some errno => exact .of_alike ha ht rfl fun _ h => by cases h
  | none =>
    unfold spawnThread at ha ht ⊢
    dsimp only at ha ht ⊢
    split
    · next hs =>
      rw [hs] at ha ht
      exact .of_alike ha ht rfl fun _ h => by cases h
    · next hs =>
      rw [hs] at ha ht
      exact .of_alike ha ht rfl fun _ h => by cases h

/-- What a fork calls the host for once it has a child. -/
theorem Called.evolves (h : k.Called k') : k.Evolves True k' := by
  cases h with
  | @space src dst refusal _ _ called =>
    have hc := calls_cloneAddressSpace k src dst refusal
    rw [called] at hc
    exact hc.evolves
  | @files src dst refusal _ _ called =>
    have hc := calls_cloneFdTable k src dst refusal
    rw [called] at hc
    exact hc.evolves
  | @spawn task refusal _ _ called =>
    have hc := calls_spawnThread k task refusal
    rw [called] at hc
    exact hc.evolves
  | @detached task refusal _ k₁ called other =>
    have hc := calls_spawnThread k task refusal
    rw [called] at hc
    exact hc.evolves.trans (calls_detachThread k₁ other).evolves

/-! ### Forks -/

/-- No pid for a block to come is taken. -/
theorem tame_reserve {error : ProcessError} (hr : k.reserve = (.error error, k')) : k.Tame k' := by
  unfold reserve at hr
  split at hr
  · cases hr
    exact .refl k
  · split at hr
    · cases hr
    · cases hr
      exact .refl k
    · next fault hf =>
      cases hr
      refine .halt fun p hp => ?_
      subst hp
      unfold PidMap.allocate at hf
      split at hf
      · cases hf
      · split at hf
        · cases hf
        · split at hf <;> cases hf

theorem does_beginCreate (k : Kernel) (name : String) (r : List Pid) :
    ∃ ds, k.Does False r ds (k.beginCreate name).2 ((k.beginCreate name).1.reserved ++ r) := by
  have hb := k.beginsCreate name
  generalize k.beginCreate name = out at hb ⊢
  cases hb with
  | refused reserve => exact (tame_reserve reserve).evolves r
  | begun reserve => exact ⟨[], (Change.reserved reserve).does⟩

theorem does_beginFork (k : Kernel) (pid : Pid) (r : List Pid) :
    ∃ ds, k.Does False r ds (k.beginFork pid).2 ((k.beginFork pid).1.reserved ++ r) := by
  have hb := k.beginsFork pid
  generalize k.beginFork pid = out at hb ⊢
  cases hb with
  | refused => exact ⟨[], .done⟩
  | @full parent _ k' found reserve =>
    have htame := (Tame.retained found.counted).trans (tame_reserve reserve)
    exact (htame.evolves.trans (evolves_release k' parent)) r
  | begun found reserve =>
    exact ⟨_, (Change.tame (.retained found.counted)).does.trans (Change.reserved reserve).does⟩

theorem evolves_abandon (k : Kernel) (child : BlockId) : k.Evolves False (k.abandon child) := by
  have ht : k.Tame (k.update child Block.unwound) :=
    .of_update child _ fun _ => ⟨rfl, rfl, rfl, rfl⟩
  exact ht.evolves.trans (evolves_release _ child)

/-- A fork that fails unwinds what it has done. -/
theorem evolves_unwind (k : Kernel) (child parent : BlockId) (progress : Progress) :
    k.Evolves False ((k.abandon child).endFork parent progress).2 := by
  unfold endFork
  dsimp only
  exact (evolves_abandon k child).trans (evolves_release _ parent)

/-- The pid taken for a block goes to the block, or is given back if the block is refused. -/
theorem does_make {p : Pid} {name : String} {refusal : Option Errno}
    {result : Except ProcessError BlockId} (made : k.make p name refusal = (result, k'))
    (r : List Pid) : ∃ ds, k.Does False (p :: r) ds k' r := by
  cases refusal with
  | some errno =>
    have hr : k.Change False (p :: r) [] (k.log (.refuseTask name errno)) (p :: r) := .refused
    cases made
    exact ⟨_, hr.does.trans Change.unreserved.does⟩
  | none =>
    have hm : k.Change False (p :: r) [] (k.make p name none).2 r := .made
    rw [made] at hm
    exact ⟨_, hm.does⟩

/-- A fork that has a pid takes no other. -/
theorem reserved_resume (k : Kernel) (pending : Pending) (refusal : Option Errno) :
    (k.resume pending refusal).1.reserved = [] := by
  have hr := k.resumes pending refusal
  generalize k.resume pending refusal = out at hr ⊢
  cases hr with
  | @linked parent child k' files =>
    rcases k'.linkChild_cases parent child with ⟨error, hk⟩ | hk
    · rw [hk]
      rfl
    · rw [hk]
      rfl
  | _ => rfl

/-- A fork or creation that goes on takes up the pid that was taken for its block. -/
theorem does_resume (k : Kernel) (pending : Pending) (refusal : Option Errno) (r : List Pid) :
    ∃ ds, k.Does True (pending.reserved?.toList ++ r) ds (k.resume pending refusal).2
      ((k.resume pending refusal).1.reserved ++ r) := by
  rw [reserved_resume]
  have hr := k.resumes pending refusal
  generalize k.resume pending refusal = out at hr ⊢
  cases hr with
  | uncreated made => exact (does_make made r).imp fun _ hd => hd.loosen
  | created made => exact (does_make made r).imp fun _ hd => hd.loosen
  | @unborn parent _ _ k' made =>
    obtain ⟨ds, hmake⟩ := does_make made r
    exact ⟨_, (hmake.trans (does_release k' parent r)).loosen⟩
  | born made => exact (does_make made r).imp fun _ hd => hd.loosen
  | @unwound _ parent child error k' held flight refused =>
    have hunwound := evolves_unwind k' child parent (.failed error)
    have he := refused.called.evolves.trans hunwound.loosen
    rw [Pending.reserved?_of_child flight]
    exact he r
  | copied space => exact (Called.space space).evolves r
  | @linked parent child k' files =>
    have hcall := (Called.files files).evolves
    have hl := k'.links parent child
    generalize k'.linkChild parent child = out at hl ⊢
    cases hl with
    | unwound => exact (hcall.trans (evolves_unwind k' child parent _).loosen) r
    | attached =>
      have hlinked := hcall.trans (tame_attach k' child parent).evolves.loosen
      exact (hlinked.trans (calls_attachThread ..).evolves) r
  | @complete parent _ _ k' spawned =>
    exact ((Called.spawn spawned).evolves.trans (evolves_release k' parent).loosen) r

/-! ### Waiting -/

theorem evolves_collect (k : Kernel) (b : BlockId) : k.Evolves False (k.collect b).2 := by
  rw [collect_eq]
  dsimp only
  exact ((tame_collected k b).evolves.trans (evolves_release _ b)).trans (evolves_release _ b)

theorem evolves_wake (k : Kernel) (b : BlockId) : k.Evolves False (k.wake b).2 := by
  unfold wake
  split
  · exact evolves_release k b
  · exact evolves_collect k b

theorem evolves_wait (k : Kernel) (caller : Pid) (target : Int64) (options : Int32) :
    k.Evolves False (k.wait caller target options).2 := by
  have hcommit : ∀ b, (k.block b).refCount ≠ 0 →
      k.Tame ((k.update b .retained).update b .committed) := fun b hz =>
    (Tame.retained hz).trans (.of_update b _ fun _ => ⟨rfl, rfl, rfl, rfl⟩)
  have hw := k.asks caller target options
  generalize k.wait caller target options = out at hw ⊢
  cases hw with
  | refused => exact .refl k
  | @collected _ b named found =>
    have hcollect := evolves_collect ((k.update b .retained).update b .committed) b
    generalize ((k.update b .retained).update b .committed).collect b = out at *
    exact (hcommit b found.counted).evolves.trans hcollect
  | @asleep _ b named found => exact (hcommit b found.counted).evolves

/-! ### Exiting -/

theorem tame_holdChild (parent pid : Pid) (out : List BlockId × Kernel) :
    out.2.Tame (holdChild parent out pid).2 := by
  unfold holdChild PidMap.getRetained BlockStore.tryRetain
  cases out.2.pids.lookup pid with
  | none => exact .refl out.2
  | some b =>
    simp only [Option.bind_some]
    split
    · exact .refl out.2
    · next b' blocks hget =>
      split at hget
      · cases hget
      · next hz =>
        cases hget
        have ht : out.2.Tame (out.2.update b .retained) := .retained hz
        split
        · exact ht
        · exact ht.trans (.halt fun _ h => by cases h)

theorem tame_holdChildren (k : Kernel) (parent : Pid) : k.Tame (k.holdChildren parent).2 := by
  have hfold : ∀ (pids : List Pid) (out : List BlockId × Kernel),
      out.2.Tame (pids.foldl (holdChild parent) out).2 := by
    intro pids
    induction pids with
    | nil => exact fun out => .refl out.2
    | cons pid pids ih => exact fun out => (tame_holdChild parent pid out).trans (ih _)
  exact (Tame.with_family k (k.family.detachAll parent)).trans
    (hfold (k.family.childrenOf parent) ([], { k with family := k.family.detachAll parent }))

theorem evolves_rehome (k : Kernel) (child : BlockId) : k.Evolves False (k.rehome child) := by
  unfold rehome
  split
  · exact (tame_attach ..).evolves
  · split
    · exact (tame_collected k child).evolves.trans (evolves_release _ child)
    · exact .refl k

/-- What evolves at each turn evolves over a list. -/
theorem evolves_foldl {f : Kernel → BlockId → Kernel}
    (hf : ∀ (k : Kernel) (b : BlockId), k.Evolves False (f k b))
    (bs : List BlockId) (k : Kernel) : k.Evolves False (bs.foldl f k) := by
  induction bs generalizing k with
  | nil => exact .refl k
  | cons b bs ih => exact (hf k b).trans (ih _)

theorem evolves_rearrangeChildren (k : Kernel) (parent : Pid) :
    k.Evolves False (k.rearrangeChildren parent) := by
  unfold rearrangeChildren
  exact ((tame_holdChildren k parent).evolves.trans (evolves_foldl evolves_rehome _ _)).trans
    (evolves_foldl evolves_release _ _)

/-- The status is published, the process loses its thread and may be given up. -/
theorem evolves_publishExit (k : Kernel) (b : BlockId) (status : RawStatus) :
    ∃ k₁, k.Tame k₁ ∧
      (k₁.detachThread (k₁.block b).task).Evolves False (k.publishExit b status).2 := by
  have ht : k.Tame (k.update b fun x => { x with exited := true, code := status }) :=
    .of_update b _ fun _ => ⟨rfl, rfl, rfl, rfl⟩
  unfold publishExit
  dsimp only
  split
  · have hgiven := fun k₂ => evolves_release k₂ b
    exact ⟨_, ht.trans (tame_collected _ b), hgiven _⟩
  · exact ⟨_, ht, .refl _⟩

/-- The children of a process that leaves are handed on before it loses its thread. -/
theorem evolves_rearranged {pid : Pid} {b : BlockId} (found : k.Found pid b) :
    k.Evolves False
      (((k.update b .retained).beginExit b).rearrangeChildren (k.block b).pid) :=
  ((Tame.retained found.counted).trans (tame_beginExit _ b)).evolves.trans
    (evolves_rearrangeChildren _ (k.block b).pid)

theorem evolves_exitThread (k : Kernel) (pid : Pid) (status : ExitStatus) :
    k.Evolves True (k.exitThread pid status).2 := by
  have hexit : k.Evolves True (k.exit pid status.encode).2 := by
    have hl := k.leaves pid status.encode
    generalize k.exit pid status.encode = out at hl ⊢
    cases hl with
    | missed => exact .refl k
    | @left b path k' found published =>
      obtain ⟨k₁, ht, he⟩ := evolves_publishExit
        (((k.update b .retained).beginExit b).rearrangeChildren (k.block b).pid) b status.encode
      rw [published] at he
      have hdetached := ((evolves_rearranged found).trans ht.evolves).loosen.trans
        (calls_detachThread k₁ (k₁.block b).task).evolves
      exact hdetached.trans (he.trans (evolves_release k' b)).loosen
  have hl := k.leavesThread pid status
  generalize k.exitThread pid status = out at hl ⊢
  cases hl with
  | missed => exact .refl k
  | left => exact hexit.trans (calls_terminateThread ..).evolves

end Kernel

end Lifecycle
