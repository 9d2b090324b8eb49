import Lifecycle.Proofs.Session.Waking

/-! Sessions from boot on. A step has the effect of its move and then wakes
sleepers; what every sound step keeps holds after any run of permitted moves. -/

namespace Lifecycle

namespace Kernel

variable {k k₁ k' : Kernel}

/-- No block is lost, and what has begun to exit or is reaped stays so. -/
structure Ages (k k' : Kernel) : Prop where
  size : k.blocks.size ≤ k'.blocks.size
  pid : ∀ b < k.blocks.size, (k'.block b).pid = (k.block b).pid
  exiting : ∀ b < k.blocks.size, (k.block b).exiting = true → (k'.block b).exiting = true
  reaped : ∀ b < k.blocks.size, (k.block b).reaped = true → (k'.block b).reaped = true

namespace Ages

theorem trans (h : k.Ages k₁) (h' : k₁.Ages k') : k.Ages k' where
  size := Nat.le_trans h.size h'.size
  pid b hb := (h'.pid b (Nat.lt_of_lt_of_le hb h.size)).trans (h.pid b hb)
  exiting b hb he := h'.exiting b (Nat.lt_of_lt_of_le hb h.size) (h.exiting b hb he)
  reaped b hb hr := h'.reaped b (Nat.lt_of_lt_of_le hb h.size) (h.reaped b hb hr)

theorem of_update {c : BlockId} {f : Block → Block} (hq : (k.update c f).Quiet k')
    (hp : (f (k.block c)).pid = (k.block c).pid)
    (he : (k.block c).exiting = true → (f (k.block c)).exiting = true)
    (hr : (k.block c).reaped = true → (f (k.block c)).reaped = true) : k.Ages k' := by
  refine ⟨Nat.le_of_eq (hq.size.trans (size_update ..)).symm, fun b _ => ?_, fun b _ hb => ?_,
    fun b _ hb => ?_⟩
  · rw [hq.pid, view_update Block.pid hp]
  · rw [hq.exiting, block_update]
    split
    · next hc => rw [hc.1] at hb ⊢; exact he hb
    · exact hb
  · rw [hq.reaped, block_update]
    split
    · next hc => rw [hc.1] at hb ⊢; exact hr hb
    · exact hb

theorem of_add {block : Block} (hb : k'.blocks = k.blocks.add block) : k.Ages k' := by
  refine ⟨?_, fun b hlt => by rw [block_of_add_of_lt hb hlt],
    fun b hlt he => by rwa [block_of_add_of_lt hb hlt],
    fun b hlt hr => by rwa [block_of_add_of_lt hb hlt]⟩
  rw [size_of_add hb]
  exact Nat.le_succ _

theorem unreaped (h : k.Ages k') {b : BlockId} (hb : b < k.blocks.size)
    (hr : (k'.block b).reaped = false) : (k.block b).reaped = false :=
  Bool.eq_false_iff.2 fun hx => absurd (h.reaped b hb hx) (Bool.eq_false_iff.1 hr)

end Ages

theorem Buries.ages (h : k.Buries k') : k.Ages k' :=
  ⟨Nat.le_of_eq h.size.symm, fun b _ => h.pid b, fun b _ he => (h.exiting b).trans he,
    fun b _ hr => h.reaped b hr⟩

theorem Quiet.ages (h : k.Quiet k') : k.Ages k' := h.buries.ages

end Kernel

namespace Session

variable {s : Session} {h : List Event}

/-- A step: the effect of its move, then the sleepers that wake. -/
structure Steps (s : Session) (h : List Event) (move : Move) (acted told : List Event)
    (k : Kernel) (next : Session) : Prop where
  effect : s.Effect h move acted k
  wakes : Wakes (h ++ acted) k told next.kernel
  sound : next.Sound (h ++ (acted ++ told))
  settled : next.Settled

theorem Sound.step (hs : s.Sound h) {move : Move} (hp : move.permitted s h = true) :
    ∃ acted told k, s.events move = acted ++ told ∧
      s.Steps h move acted told k (s.step move).2.2 := by
  obtain ⟨heffect, hsound⟩ := hs.act hp
  obtain ⟨hwakes, hsettled, hdone⟩ := hsound.settle
  rw [List.append_assoc] at hsettled
  exact ⟨_, _, _, rfl, heffect, hwakes, hsettled, hdone⟩

/-! ### What a step leaves as it was -/

/-- A move that says who forked a block made the block. -/
theorem Effect.forkerOf_eq {move : Move} {es : List Event} {k' : Kernel}
    (he : s.Effect h move es k') {b : BlockId} (hb : b < s.kernel.blocks.size) :
    forkerOf (h ++ es) b = forkerOf h b := by
  have hnone : forkerOf es b = none := by
    cases he with
    | born blocks => rw [forkerOf_born, if_neg (Nat.ne_of_gt hb)]
    | left found forker running landed size core => exact forkerOf_of_plain plain_of_left b
    | _ => rfl
  rw [forkerOf_append, hnone, Option.or_none]

theorem Sound.ages_act (hs : s.Sound h) {move : Move} {es : List Event} {k' : Kernel}
    (he : s.Effect h move es k') : s.kernel.Ages k' := by
  cases he with
  | quiet quiet => exact quiet.ages
  | surrendered free quiet => exact quiet.ages
  | made blocks quiet => exact (Kernel.Ages.of_add blocks).trans quiet.ages
  | born blocks => exact .of_add blocks
  | @left _ _ c _ _ found forker running landed size core =>
    refine ⟨Nat.le_of_eq size.symm, fun b _ => ?_, fun b _ hb => ?_, fun b _ hb => ?_⟩
    · rw [Block.pid_of_core (core b), Kernel.departure_pid]
    · have hbc : b ≠ c := by
        rintro rfl
        exact Bool.false_ne_true (running.symm.trans hb)
      rw [Block.exiting_of_core (core b), Kernel.departure_exiting_of_ne hbc]
      exact hb
    · have hbc : b ≠ c := by
        rintro rfl
        exact Bool.false_ne_true ((hs.kernel.reaped_of_not_exiting running).symm.trans hb)
      rw [Block.reaped_of_core (core b)]
      exact Kernel.departure_reaped_of_ne hbc _ hb
  | linked half forker running held quiet => exact .of_update quiet rfl id id
  | unwound flight forker running quiet => exact .of_update quiet rfl (fun _ => rfl) fun _ => rfl
  | slept named found parent waiter reaped exited quiet => exact .of_update quiet rfl id id
  | collected named found parent waiter reaped exited quiet =>
    exact .of_update quiet rfl id fun _ => rfl

theorem Sound.forkerOf_step (hs : s.Sound h) {move : Move} (hp : move.permitted s h = true)
    {b : BlockId} (hb : b < s.kernel.blocks.size) :
    forkerOf (h ++ s.events move) b = forkerOf h b := by
  obtain ⟨acted, told, k, he, hstep⟩ := hs.step hp
  rw [he, ← List.append_assoc, forkerOf_append_plain _ hstep.wakes.plain,
    hstep.effect.forkerOf_eq hb]

theorem Sound.ages_step (hs : s.Sound h) {move : Move} (hp : move.permitted s h = true) :
    s.kernel.Ages (s.step move).2.2.kernel := by
  obtain ⟨acted, told, k, -, hstep⟩ := hs.step hp
  exact (hs.ages_act hstep.effect).trans hstep.wakes.buries.ages

/-! ### Runs -/

theorem Sound.fault (hs : s.Sound h) : s.kernel.fault = none := hs.kernel.placed.fault

theorem Sound.run_cons (hs : s.Sound h) (move : Move) (moves : List Move) :
    s.run (move :: moves) = (s.step move).2.2.run moves := by
  rw [Session.run_cons, hs.fault]
  rfl

theorem Sound.next (hs : s.Sound h) {move : Move} (hp : move.permitted s h = true) :
    (s.step move).2.2.Sound (h ++ s.events move) := by
  obtain ⟨acted, told, k, he, hstep⟩ := hs.step hp
  rw [he]
  exact hstep.sound

/-- What each sound step keeps, a run keeps. -/
theorem run_induction {P : Session → List Event → Prop}
    (hstep : ∀ {s h move}, Sound s h → move.permitted s h = true → P s h →
      P (s.step move).2.2 (h ++ s.events move))
    {moves : List Move} (hs : s.Sound h) (hl : s.lawful h moves = true) (hP : P s h) :
    (s.run moves).Sound (s.history h moves) ∧ P (s.run moves) (s.history h moves) := by
  induction moves generalizing s h with
  | nil => exact ⟨hs, hP⟩
  | cons move moves ih =>
    obtain ⟨hp, hrest⟩ := Bool.and_eq_true_iff.1 hl
    rw [hs.run_cons]
    exact ih (hs.next hp) hrest (hstep hs hp hP)

theorem Sound.run (hs : s.Sound h) {moves : List Move} (hl : s.lawful h moves = true) :
    (s.run moves).Sound (s.history h moves) :=
  (run_induction (P := fun _ _ => True) (fun _ _ _ => trivial) hs hl trivial).1

/-- Between moves every sleeper sleeps on a process that runs. -/
theorem Sound.run_settled (hs : s.Sound h) {moves : List Move} (hl : s.lawful h moves = true)
    (hd : s.Settled) : (s.run moves).Settled := by
  refine (run_induction (P := fun s _ => s.Settled) ?_ hs hl hd).2
  intro s h move hs hp _
  obtain ⟨acted, told, k, -, hstep⟩ := hs.step hp
  exact hstep.settled

/-! ### Prefixes -/

theorem lawful_append (hs : s.Sound h) (pre post : List Move) :
    s.lawful h (pre ++ post) = (s.lawful h pre && (s.run pre).lawful (s.history h pre) post) := by
  induction pre generalizing s h with
  | nil => rfl
  | cons move pre ih =>
    rw [List.cons_append, lawful, lawful, hs.run_cons]
    cases hp : move.permitted s h with
    | false => rfl
    | true =>
      rw [Bool.true_and, Bool.true_and]
      exact ih (hs.next hp)

theorem history_append (hs : s.Sound h) {pre : List Move} (hl : s.lawful h pre = true)
    (post : List Move) :
    s.history h (pre ++ post) = (s.run pre).history (s.history h pre) post := by
  induction pre generalizing s h with
  | nil => rfl
  | cons move pre ih =>
    obtain ⟨hp, hrest⟩ := Bool.and_eq_true_iff.1 hl
    rw [hs.run_cons]
    exact ih (hs.next hp) hrest

/-- What a run tells is told in one of its moves. -/
theorem Sound.mem_history (hs : s.Sound h) {moves : List Move} (hl : s.lawful h moves = true)
    {e : Event} (he : e ∈ s.history h moves) : e ∈ h ∨ ∃ pre move post,
      moves = pre ++ move :: post ∧ e ∈ (s.run pre).events move := by
  induction moves generalizing s h with
  | nil => exact Or.inl he
  | cons move moves ih =>
    obtain ⟨hp, hrest⟩ := Bool.and_eq_true_iff.1 hl
    rcases ih (hs.next hp) hrest he with he | ⟨pre, m, post, rfl, he⟩
    · rcases List.mem_append.1 he with he | he
      · exact Or.inl he
      · exact Or.inr ⟨[], move, moves, rfl, he⟩
    · refine Or.inr ⟨move :: pre, m, post, rfl, ?_⟩
      rwa [hs.run_cons]

/-- Who forked a block is settled when it is made. -/
theorem Sound.forkerOf_run (hs : s.Sound h) {moves : List Move} (hl : s.lawful h moves = true)
    {b : BlockId} (hb : b < s.kernel.blocks.size) :
    forkerOf (s.history h moves) b = forkerOf h b := by
  have hrun := run_induction (P := fun s' h' => b < s'.kernel.blocks.size ∧
    forkerOf h' b = forkerOf h b) ?_ hs hl ⟨hb, rfl⟩
  · exact hrun.2.2
  · intro s' h' move hs' hp ⟨hlt, hf⟩
    exact ⟨Nat.lt_of_lt_of_le hlt (hs'.ages_step hp).size, (hs'.forkerOf_step hp hlt).trans hf⟩

/-! ### Boot -/

theorem boot_eq {config : Config} {refusal : Option Errno} (hb : boot config refusal = .ok s) :
    ∃ k, Kernel.boot config refusal = .ok k ∧ s = { kernel := k } := by
  unfold boot at hb
  cases hk : Kernel.boot config refusal with
  | error error => rw [hk] at hb; cases hb
  | ok k =>
    rw [hk] at hb
    exact ⟨k, rfl, (Except.ok.inj hb).symm⟩

theorem sound_boot {config : Config} {refusal : Option Errno} (hb : boot config refusal = .ok s) :
    s.Sound [] ∧ s.Settled := by
  obtain ⟨k, hk, rfl⟩ := boot_eq hb
  have ha : account { kernel := k } [] = .initial := rfl
  refine ⟨⟨ha ▸ (Kernel.sound_boot hk).1, ?_⟩, fun w hw => absurd hw List.not_mem_nil⟩
  exact ⟨fun f hf => absurd hf List.not_mem_nil, List.nodup_nil, fun hn => (by cases hn),
    fun hi => (by cases hi), fun w hw => absurd hw List.not_mem_nil, List.nodup_nil⟩

/-- A session comes up with the kernel's block alone, and nobody waits for it. -/
theorem size_boot {config : Config} {refusal : Option Errno} (hb : boot config refusal = .ok s) :
    s.kernel.blocks.size = 1 ∧ ∀ b, (s.kernel.block b).waiter = false := by
  obtain ⟨k, hk, rfl⟩ := boot_eq hb
  exact (Kernel.sound_boot hk).2

/-! ### Answers -/

/-- What a caller is answered is told by the events of the move. -/
structure Tells (s : Session) (move : Move) : Prop where
  waited : ∀ {caller target options via destination report pid raw},
    move = .wait caller target options via destination → (s.step move).1 = .waited report →
    report.result = .ok (pid, raw) → ∃ b, s.target? target = some b ∧
      .committed b caller ∈ s.events move ∧ .collected b caller pid raw ∈ s.events move
  blocked : ∀ {caller target options via destination id},
    move = .wait caller target options via destination → (s.step move).1 = .blocked id →
    ∃ b, s.target? target = some b ∧ .committed b caller ∈ s.events move
  exited : ∀ {pid served status path}, move = .exit pid status →
    (s.step move).1 = .exited served (some path) →
    ∃ b, s.kernel.pids.lookup pid = some b ∧ .exited b status path ∈ s.events move
  woken : ∀ {w pid raw}, w ∈ (s.step move).2.1 → w.report.result = .ok (pid, raw) →
    ∃ p ∈ (s.act move).2.parked, p.id = w.id ∧
      .collected p.block p.caller pid raw ∈ s.events move

/-- A wait that is not refused has found its target. -/
theorem Sound.found_of_wait (hs : s.Sound h) {caller : Pid} {target : Int64} {options : Int32}
    {via : Via} {destination : Option RawStatus} {reply : Reply}
    (hr : (s.act (.wait caller target options via destination)).1 = reply) :
    reply = .noContext ∨ (∃ report error, reply = .waited report ∧ report.result = .error error) ∨
      ∃ b, s.target? target = some b := by
  have hw := hs.kernel.wait caller target options
  simp only [Session.act, Session.wait] at hr
  split at hr
  · exact Or.inl hr.symm
  · generalize s.kernel.wait caller target options = out at hw hr
    obtain ⟨outcome, k'⟩ := out
    cases hw with
    | refused quiet sound => exact Or.inr (Or.inl ⟨_, _, hr.symm, rfl⟩)
    | collected named found => exact Or.inr (Or.inr ⟨_, target?_eq named found⟩)
    | slept named found => exact Or.inr (Or.inr ⟨_, target?_eq named found⟩)

theorem Sound.found_of_exit (hs : s.Sound h) {pid served : Pid} {status : ExitStatus}
    {path : ExitPath} (hr : (s.act (.exit pid status)).1 = .exited served (some path)) :
    ∃ b, s.kernel.pids.lookup pid = some b := by
  simp only [Session.act, Session.exit] at hr
  split at hr
  · cases hr
  · next hn =>
    obtain ⟨b, hb⟩ := hs.ready.contexts hn
    exact ⟨b, hs.lookup_of_serves hb⟩

/-- Those woken were asleep, and each is finished in some state between the others. -/
theorem mem_foldl_wakeOne {P : Kernel → Prop}
    (hP : ∀ {k : Kernel} (b : BlockId), P k → P (k.wake b).2) {ws : List ParkedWait}
    {out : List Woken} {t : Session} (ht : P t.kernel) {w : Woken}
    (hw : w ∈ (ws.foldl wakeOne (out, t)).1) :
    w ∈ out ∨ ∃ p ∈ ws, ∃ k, P k ∧
      w = ⟨p.id, ⟨p.via, (k.wake p.block).1, copyOut p.destination (k.wake p.block).1⟩⟩ := by
  induction ws generalizing out t with
  | nil => exact Or.inl hw
  | cons p ws ih =>
    rw [List.foldl_cons, wakeOne] at hw
    rcases ih (t := { t with kernel := (t.kernel.wake p.block).2 }) (hP p.block ht) hw with
      hm | ⟨p', hp', k, hk, he⟩
    · rcases List.mem_cons.1 hm with rfl | hm
      · exact Or.inr ⟨p, List.mem_cons_self, t.kernel, ht, rfl⟩
      · exact Or.inl hm
    · exact Or.inr ⟨p', List.mem_cons_of_mem _ hp', k, hk, he⟩

theorem mem_settle {P : Kernel → Prop}
    (hP : ∀ {k : Kernel} (b : BlockId), P k → P (k.wake b).2) (hs : P s.kernel) {w : Woken}
    (hw : w ∈ s.settle.1) : ∃ p ∈ s.parked, ∃ k, P k ∧
      w = ⟨p.id, ⟨p.via, (k.wake p.block).1, copyOut p.destination (k.wake p.block).1⟩⟩ := by
  rcases mem_foldl_wakeOne hP (t := { s with parked := s.parked.filter (!isDue s.kernel ·) }) hs
    (List.mem_reverse.1 hw) with hm | ⟨p, hm, hk⟩
  · cases hm
  · exact ⟨p, List.mem_of_mem_filter hm, hk⟩

theorem Sound.tells (hs : s.Sound h) {move : Move} (hp : move.permitted s h = true) :
    s.Tells move where
  waited := by
    rintro caller target options via destination report pid raw rfl hr hok
    rcases hs.found_of_wait hr with hn | ⟨report', error, he, herr⟩ | ⟨b, hb⟩
    · cases hn
    · cases he
      cases hok.symm.trans herr
    · have hact : (s.act (.wait caller target options via destination)).1 = .waited report := hr
      refine ⟨b, hb, List.mem_append_left _ ?_, List.mem_append_left _ ?_⟩
      all_goals simp [hact, actEvents, hok, hb]
  blocked := by
    rintro caller target options via destination id rfl hr
    rcases hs.found_of_wait hr with hn | ⟨report', error, he, herr⟩ | ⟨b, hb⟩
    · cases hn
    · cases he
    · have hact : (s.act (.wait caller target options via destination)).1 = .blocked id := hr
      refine ⟨b, hb, List.mem_append_left _ ?_⟩
      simp [hact, actEvents, hb]
  exited := by
    rintro pid served status path rfl hr
    obtain ⟨b, hb⟩ := hs.found_of_exit hr
    have hact : (s.act (.exit pid status)).1 = .exited served (some path) := hr
    refine ⟨b, hb, List.mem_append_left _ ?_⟩
    simp [hact, actEvents, hb]
  woken := by
    intro w pid raw hw hok
    have hready := (hs.act hp).sound.ready
    obtain ⟨p, hm, he⟩ : ∃ p ∈ (s.act move).2.parked, p.id = w.id := by
      obtain ⟨p, hm, -, -, rfl⟩ := mem_settle (P := fun _ => True) (fun _ _ => trivial) trivial hw
      exact ⟨p, hm, rfl⟩
    refine ⟨p, hm, he, List.mem_append_right _ (List.mem_flatMap.2 ⟨w, hw, ?_⟩)⟩
    simp [wakeEvents, hok, ← he, hready.find_parked hm]

end Session

end Lifecycle
