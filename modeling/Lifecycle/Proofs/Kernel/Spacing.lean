import Lifecycle.Proofs.Kernel.Perishing

/-! Address spaces are told apart by generations, and the host gives none out twice: every task
has one from before the next. This holds of any table, whatever its callers do. -/

namespace Lifecycle

namespace Host

/-- The generations that tasks have were given out before. -/
structure Spaced (h : Host) : Prop where
  lt : ∀ t record, h.task? t = some record → ∀ g, record.addressSpace = some g → g < h.nextSpace

variable {h h' : Host}

/-- The next generation is nobody's. -/
theorem Spaced.next (hs : h.Spaced) {t : TaskHandle} {record : TaskRecord}
    (ht : h.task? t = some record) : record.addressSpace ≠ some h.nextSpace := fun hg =>
  Nat.lt_irrefl _ (hs.lt t record ht _ hg)

/-- Tasks keep the generations that they have, or get some from before the next. -/
theorem Spaced.of_tasks (hs : h.Spaced) (hn : h.nextSpace ≤ h'.nextSpace)
    (ht : ∀ t record, h'.task? t = some record → ∀ g, record.addressSpace = some g →
      g < h'.nextSpace ∨ ∃ old, h.task? t = some old ∧ old.addressSpace = some g) :
    h'.Spaced := by
  refine ⟨fun t record hr g hg => ?_⟩
  rcases ht t record hr g hg with hlt | ⟨old, hold, hsame⟩
  · exact hlt
  · exact Nat.lt_of_lt_of_le (hs.lt t old hold g hsame) hn

/-- A record changes in something else. -/
theorem Spaced.of_modify (hs : h.Spaced) (hn : h'.nextSpace = h.nextSpace) (task : TaskHandle)
    {f : TaskRecord → TaskRecord}
    (ht : ∀ t, h'.task? t = if t = task then (h.task? t).map f else h.task? t)
    (hf : ∀ record, (f record).addressSpace = record.addressSpace) : h'.Spaced := by
  refine hs.of_tasks (Nat.le_of_eq hn.symm) fun t record hr g hg => Or.inr ?_
  rw [ht] at hr
  split at hr
  · obtain ⟨old, hold, rfl⟩ := Option.map_eq_some_iff.1 hr
    exact ⟨old, hold, (hf old).symm.trans hg⟩
  · exact ⟨record, hr, hg⟩

theorem Spaced.createTask (hs : h.Spaced) (name : String) : (h.createTask name).2.Spaced := by
  refine hs.of_tasks (Nat.le_refl _) fun t record hr g hg => Or.inr ?_
  rw [task?_createTask] at hr
  split at hr
  · cases hr
    cases hg
  · exact ⟨record, hr, hg⟩

theorem nextSpace_destroyTask (h : Host) (task : TaskHandle) :
    (h.destroyTask task).nextSpace = h.nextSpace := by
  unfold Host.destroyTask
  split <;> rfl

theorem Spaced.destroyTask (hs : h.Spaced) (task : TaskHandle) : (h.destroyTask task).Spaced := by
  refine hs.of_tasks (Nat.le_of_eq (nextSpace_destroyTask h task).symm)
    fun t record hr g hg => Or.inr ?_
  rw [task?_destroyTask] at hr
  split at hr
  · cases hr
  · exact ⟨record, hr, hg⟩

theorem Spaced.attach (hs : h.Spaced) (task : TaskHandle) (pid : Pid) :
    (h.attach task pid).Spaced :=
  hs.of_modify rfl task (task?_attach h task · pid) fun _ => rfl

theorem Spaced.detach (hs : h.Spaced) (task : TaskHandle) : (h.detach task).Spaced :=
  hs.of_modify rfl task (task?_detach h task) fun _ => rfl

theorem Spaced.destroyFdTable (hs : h.Spaced) (task : TaskHandle) :
    (h.destroyFdTable task).Spaced :=
  hs.of_modify rfl task (task?_destroyFdTable h task) fun _ => rfl

/-- A copy gets the next generation, which is used up even if there is nobody to get it. -/
theorem Spaced.cloneAddressSpace (hs : h.Spaced) (src dst : TaskHandle) :
    (h.cloneAddressSpace src dst).2.Spaced := by
  have hc := h.copiesSpace src dst
  generalize h.cloneAddressSpace src dst = out at hc ⊢
  cases hc with
  | refused n unknown next =>
    exact hs.of_tasks next fun t record hr g hg => Or.inr ⟨record, hr, hg⟩
  | done known there =>
    refine hs.of_tasks (Nat.le_succ _) fun t record hr g hg => ?_
    rw [task?, Assoc.get?_modify] at hr
    split at hr
    · obtain ⟨old, -, rfl⟩ := Option.map_eq_some_iff.1 hr
      cases hg
      exact Or.inl (Nat.lt_succ_self _)
    · exact Or.inr ⟨record, hr, hg⟩

theorem Spaced.cloneFdTable (hs : h.Spaced) (src dst : TaskHandle) :
    (h.cloneFdTable src dst).2.Spaced := by
  have hc := h.copiesFiles src dst
  generalize h.cloneFdTable src dst = out at hc ⊢
  cases hc with
  | refused => exact hs
  | done known there => exact hs.of_modify rfl dst (fun _ => Assoc.get?_modify ..) fun _ => rfl

/-- Threads are started and ended without regard to records. -/
theorem Spaced.spawn (hs : h.Spaced) (task : TaskHandle) : (h.spawn task).2.Spaced := by
  have hn : (h.spawn task).2.nextSpace = h.nextSpace := by
    unfold Host.spawn
    split <;> rfl
  refine hs.of_tasks (Nat.le_of_eq hn.symm) fun t record hr g hg => Or.inr ⟨record, ?_, hg⟩
  rwa [task?, tasks_spawn] at hr

end Host

namespace Kernel

variable {k k' : Kernel} {r r' : List Pid} {ds : List Release}

/-! ### Elementary changes -/

theorem spaced_discardTaskOf (hs : k.host.Spaced) (b : BlockId) :
    (k.discardTaskOf b).host.Spaced := by
  unfold discardTaskOf
  split
  · exact hs
  · exact (hs.destroyFdTable _).destroyTask _

theorem spaced_release (hs : k.host.Spaced) (b : BlockId) : (k.release b).2.host.Spaced := by
  rw [release_eq]
  split
  · refine spaced_discardTaskOf ?_ b
    have hpid := (alongside_freePid (k.update b .released) b).host
    exact hpid ▸ hs
  · exact hs

theorem spaced_make (hs : k.host.Spaced) (p : Pid) (name : String) :
    (k.make p name none).2.host.Spaced := by
  have hmade : (k.make p name none).2.host = (k.host.createTask name).2 :=
    host_install (k.createTask name none).2 (.fresh p name ⟨k.host.nextTask⟩)
  rw [hmade]
  exact hs.createTask name

/-- Where no tasks are called about, tasks come and go at most. -/
theorem Change.spaced (hc : k.Change False r ds k' r') (hs : k.host.Spaced) : k'.host.Spaced := by
  cases hc with
  | tame ht => exact ht.host ▸ hs
  | called hb => exact hb.elim
  | refused => exact hs
  | reserved got => exact (congrArg Prod.snd got ▸ (alongside_reserve k).host) ▸ hs
  | unreserved => exact (alongside_unreserve k _).host ▸ hs
  | made => exact spaced_make hs ..
  | shut hb => exact hb.elim
  | released => exact spaced_release hs _
  | forgone => exact hs

theorem Does.spaced (hd : k.Does False r ds k' r') (hs : k.host.Spaced) : k'.host.Spaced := by
  induction hd with
  | done => exact hs
  | next change rest ih => exact ih (change.spaced hs)

theorem Evolves.spaced (he : k.Evolves False k') (hs : k.host.Spaced) : k'.host.Spaced := by
  obtain ⟨ds, hd⟩ := he []
  exact hd.spaced hs

/-! ### Operations that call about tasks -/

theorem Called.spaced (h : k.Called k') (hs : k.host.Spaced) : k'.host.Spaced := by
  have hspawn : ∀ {task refusal answer k'},
      k.spawnThread task refusal = (answer, k') → k'.host.Spaced := by
    intro task refusal answer k' called
    cases refusal with
    | some errno =>
      cases called
      exact hs
    | none =>
      have hspawned := hs.spawn task
      unfold spawnThread at called
      generalize k.host.spawn task = out at called hspawned
      obtain ⟨found, host⟩ := out
      cases found <;> cases called <;> exact hspawned
  cases h with
  | @space src dst refusal _ _ called =>
    cases refusal with
    | some errno =>
      cases called
      exact hs
    | none =>
      have hcloned := hs.cloneAddressSpace src dst
      cases called
      exact hcloned
  | @files src dst refusal _ _ called =>
    cases refusal with
    | some errno =>
      cases called
      exact hs
    | none =>
      have hcloned := hs.cloneFdTable src dst
      cases called
      exact hcloned
  | spawn called => exact hspawn called
  | detached called other => exact (hspawn called).detach other

theorem spaced_resume (hs : k.host.Spaced) (pending : Pending) (refusal : Option Errno) :
    (k.resume pending refusal).2.host.Spaced := by
  have hr := k.resumes pending refusal
  have hmake : ∀ {p name result k'},
      k.make p name refusal = (result, k') → k'.host.Spaced := fun made =>
    (does_make made []).elim fun _ hd => hd.spaced hs
  generalize k.resume pending refusal = out at hr ⊢
  cases hr with
  | uncreated made => exact hmake made
  | created made => exact hmake made
  | unborn made => exact spaced_release (hmake made) _
  | born made => exact hmake made
  | @unwound _ parent child error k' held flight refused =>
    exact (evolves_unwind k' child parent (.failed error)).spaced (refused.called.spaced hs)
  | copied space => exact (Called.space space).spaced hs
  | @linked parent child k' files =>
    have hcloned := (Called.files files).spaced hs
    have hl := k'.links parent child
    generalize k'.linkChild parent child = out at hl ⊢
    cases hl with
    | @unwound error => exact (evolves_unwind k' child parent (.failed error)).spaced hcloned
    | attached =>
      have hlinked : (k'.attach child parent).host.Spaced :=
        (tame_attach k' child parent).host ▸ hcloned
      exact hlinked.attach ..
  | complete spawned => exact spaced_release ((Called.spawn spawned).spaced hs) _

theorem spaced_exit (hs : k.host.Spaced) (pid : Pid) (status : RawStatus) :
    (k.exit pid status).2.host.Spaced := by
  have hl := k.leaves pid status
  generalize k.exit pid status = out at hl ⊢
  cases hl with
  | missed => exact hs
  | @left b path k' found published =>
    obtain ⟨k₁, ht, he⟩ := evolves_publishExit
      (((k.update b .retained).beginExit b).rearrangeChildren (k.block b).pid) b status
    rw [published] at he
    have hleft := ((evolves_rearranged found).trans ht.evolves).spaced hs
    exact (he.trans (evolves_release k' b)).spaced (hleft.detach _)

theorem spaced_exitThread (hs : k.host.Spaced) (pid : Pid) (status : ExitStatus) :
    (k.exitThread pid status).2.host.Spaced := by
  have hexit := spaced_exit hs pid status.encode
  have hl := k.leavesThread pid status
  generalize k.exitThread pid status = out at hl ⊢
  cases hl with
  | missed => exact hs
  | left => exact ⟨hexit.lt⟩

theorem spaced_shutdown (hs : k.host.Spaced) : k.shutdown.2.host.Spaced := by
  have hdrop : ∀ (bs : List BlockId) (k : Kernel), k.host.Spaced →
      (bs.foldl dropBlock k).host.Spaced := fun bs => by
    induction bs with
    | nil => exact fun _ hs => hs
    | cons b bs ih =>
      refine fun k hs => ih _ ?_
      unfold dropBlock
      split
      · exact spaced_discardTaskOf (k := k.detachThread _) (hs.detach _) b
      · exact spaced_discardTaskOf hs b
  unfold shutdown
  split
  · exact hs
  · exact hdrop _ _ hs

/-- The kernel's own task has no address space. -/
theorem spaced_boot {config : Config} {refusal : Option Errno}
    (hb : Kernel.boot config refusal = .ok k) : k.host.Spaced := by
  have hempty : Host.Spaced {} := ⟨fun t record hr => by cases hr⟩
  rw [(host_boot hb).2]
  exact (hempty.createTask _).attach _ _

end Kernel

end Lifecycle
