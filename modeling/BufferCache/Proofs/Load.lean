import BufferCache.Proofs.Agenda
import BufferCache.Proofs.Completion

/-!
# The load becomes less

Every step keeps the load of a machine or makes it less, and a step that takes up a script
makes it less.  So there is an end to the scripts that a machine takes up, whatever these do:
the commands in them may lay down further scripts, but each of them weighs more than what it
lays down.
-/

namespace BufferCache

variable {g : Geometry}

/-! ## What scripts weigh -/

theorem Command.one_le_work (c : Command) : 1 ≤ c.work := by
  cases c with
  | register m d starts =>
    rw [work]
    omega
  | listen flushes =>
    cases flushes with
    | none => rfl
    | some flushes =>
      rw [work]
      omega
  | attend emptyings =>
    rw [work]
    omega
  | _ => exact Nat.le_refl 1

theorem one_le_scriptWork (script : Script) : 1 ≤ scriptWork script := by
  cases script with
  | nil => rfl
  | cons c rest =>
    rw [scriptWork]
    exact Nat.le_add_right_of_le c.one_le_work

theorem one_le_scriptsWork (scripts : List Script) : 1 ≤ scriptsWork scripts := by
  cases scripts with
  | nil => rfl
  | cons script rest =>
    rw [scriptsWork]
    exact Nat.le_add_right_of_le (one_le_scriptWork script)

/-! ## The scripts of a world -/

/-- What the scripts for the starts of drivers weigh. -/
def startsWork (starts : List (Nat × List Script)) : Nat :=
  starts.foldr (fun e work => scriptsWork e.2 + work) 0

namespace World

variable {w w' : World g} {m : Nat}

theorem work_eq (w : World g) : w.work =
    scriptsWork w.waiting + startsWork w.starts + scriptsWork (w.flushes.getD []) +
      scriptsWork w.emptyings := rfl

/-- Only the scripts count. -/
theorem work_of_scripts (h : w'.scripts = w.scripts) : w'.work = w.work := by
  have hwaiting : w'.waiting = w.waiting := congrArg Prod.fst h
  have hstarts : w'.starts = w.starts := congrArg (·.2.1) h
  have hflushes : w'.flushes = w.flushes := congrArg (·.2.2.1) h
  have hemptyings : w'.emptyings = w.emptyings := congrArg (·.2.2.2) h
  rw [work_eq, work_eq, hwaiting, hstarts, hflushes, hemptyings]

/-- A script that is taken up when a call gives way is laid down no more. -/
theorem work_takeWaiting {script : Script} (h : w.takeWaiting = some (script, w')) :
    w'.work + scriptWork script = w.work := by
  unfold takeWaiting at h
  split at h
  · cases h
  · rename_i first rest hwaiting
    cases h
    rw [work_eq, work_eq, hwaiting, scriptsWork]
    dsimp only
    omega

theorem startsWork_filter (starts : List (Nat × List Script)) (m : Nat) :
    startsWork (starts.filter fun e => e.1 != m) +
      ((starts.find? fun e => e.1 == m).elim 0 fun e => scriptsWork e.2) ≤
        startsWork starts := by
  induction starts with
  | nil => exact Nat.le_refl 0
  | cons e starts ih =>
    change _ ≤ scriptsWork e.2 + startsWork starts
    by_cases he : e.1 = m
    · rw [List.filter_cons_of_neg (by simp [he]), List.find?_cons_of_pos (by simp [he])]
      change _ + scriptsWork e.2 ≤ _
      omega
    · rw [List.filter_cons_of_pos (by simp [he]), List.find?_cons_of_neg (by simp [he])]
      change scriptsWork e.2 + startsWork (starts.filter fun e => e.1 != m) + _ ≤ _
      omega

theorem work_setStarts (w : World g) (m : Nat) (scripts : List Script) :
    (w.setStarts m scripts).work ≤ w.work + scriptsWork scripts := by
  have hfilter := startsWork_filter w.starts m
  rw [work_eq, work_eq]
  change scriptsWork w.waiting +
    (scriptsWork scripts + startsWork (w.starts.filter fun e => e.1 != m)) +
      scriptsWork (w.flushes.getD []) + scriptsWork w.emptyings ≤ _
  omega

/-- A script that is taken up when a driver is started is laid down no more. -/
theorem work_takeStart (w : World g) (m : Nat) :
    (w.takeStart m).2.work ≤ w.work ∧ ((w.takeStart m).1 ≠ [] →
      (w.takeStart m).2.work + scriptWork (w.takeStart m).1 ≤ w.work) := by
  unfold takeStart
  split
  · exact ⟨Nat.le_refl _, absurd rfl⟩
  · rename_i script rest hstarts
    have htaken : (w.setStarts m rest).work + scriptWork script ≤ w.work := by
      have hfilter := startsWork_filter w.starts m
      have hscripts : ((w.starts.find? fun e => e.1 == m).elim 0 fun e => scriptsWork e.2) =
          scriptWork script + scriptsWork rest := by
        unfold startsOf at hstarts
        cases hfind : w.starts.find? fun e => e.1 == m with
        | none =>
          rw [hfind] at hstarts
          cases hstarts
        | some e =>
          rw [hfind] at hstarts
          change e.2 = _ at hstarts
          change scriptsWork e.2 = _
          rw [hstarts, scriptsWork]
      rw [work_eq, work_eq]
      change scriptsWork w.waiting +
        (scriptsWork rest + startsWork (w.starts.filter fun e => e.1 != m)) +
          scriptsWork (w.flushes.getD []) + scriptsWork w.emptyings + scriptWork script ≤ _
      omega
    exact ⟨Nat.le_of_add_right_le htaken, fun _ => htaken⟩

/-- A script that is taken up when a flush is announced is laid down no more. -/
theorem work_takeFlush (w : World g) :
    w.takeFlush.2.work ≤ w.work ∧ (w.takeFlush.1 ≠ [] →
      w.takeFlush.2.work + scriptWork w.takeFlush.1 ≤ w.work) := by
  unfold takeFlush
  split
  · exact ⟨Nat.le_refl _, absurd rfl⟩
  · exact ⟨Nat.le_refl _, absurd rfl⟩
  · rename_i script rest hflushes
    have htaken : ({ w.emit .flushAnnounced with flushes := some rest } : World g).work +
        scriptWork script = w.work := by
      rw [work_eq, work_eq, hflushes]
      change scriptsWork w.waiting + startsWork w.starts + scriptsWork rest +
        scriptsWork w.emptyings + _ = _ + scriptsWork (script :: rest) + _
      rw [scriptsWork]
      omega
    exact ⟨Nat.le_of_add_right_le htaken.le, fun _ => htaken.le⟩

/-- A script that is taken up when an emptying is announced is laid down no more. -/
theorem work_takeEmptying (w : World g) (d : DeviceNumber) :
    (w.takeEmptying d).2.work ≤ w.work ∧ ((w.takeEmptying d).1 ≠ [] →
      (w.takeEmptying d).2.work + scriptWork (w.takeEmptying d).1 ≤ w.work) := by
  unfold takeEmptying
  split
  · exact ⟨Nat.le_refl _, absurd rfl⟩
  · exact ⟨Nat.le_refl _, absurd rfl⟩
  · rename_i script rest hflushes hemptyings
    have htaken : ({ w.emit (.discardAnnounced d) with emptyings := rest } : World g).work +
        scriptWork script = w.work := by
      rw [work_eq, work_eq, hemptyings, scriptsWork]
      change scriptsWork w.waiting + startsWork w.starts + scriptsWork (w.flushes.getD []) +
        scriptsWork rest + _ = _
      omega
    exact ⟨Nat.le_of_add_right_le htaken.le, fun _ => htaken.le⟩

end World

/-! ## Steps -/

/-- The load after a step is not more than that before, and less if a script is taken up. -/
def Outcome.Lightens {s : Shape} (o : Outcome g s) (w : World g) (load : Nat) (enters : Bool) :
    Prop :=
  o.Ensures fun w' n => w'.work + n.load ≤ w.work + load ∧
    (enters = true → w'.work + n.load < w.work + load)

/-- A step that leaves the scripts alone. -/
theorem Outcome.Unscripted.lightens {s : Shape} {o : Outcome g s} {w : World g} (h : o.Unscripted w)
    (load : Nat) : o.Lightens w load false :=
  Ensures.mono h fun w' n hn => by
    rw [World.work_of_scripts hn.1, hn.2]
    exact ⟨Nat.add_le_add_left (Nat.zero_le _) _, nofun⟩

namespace World

variable {s : Shape} {w w' : World g}

/-! ### Taking up scripts -/

theorem sleep_lightens (w : World g) (q : Queue g) (ticket : UInt64) :
    (w.sleep q ticket).Lightens w 0 ((Call.sleep q ticket).enters w) := by
  unfold sleep
  split
  · split
    · exact Outcome.ensures_error
    · rename_i script w' htake
      have hwork := work_takeWaiting htake
      change _ = w.work at hwork
      have hpos := one_le_scriptWork script
      refine Outcome.ensures_call ?_
      change w'.work + (scriptWork script - 1 + 0) ≤ w.work + 0 ∧
        (_ → w'.work + (scriptWork script - 1 + 0) < w.work + 0)
      omega
  · rename_i hholds
    have henters : (Call.sleep q ticket).enters w = false := by
      simp [Call.enters, hholds]
    rw [henters]
    exact Outcome.ensures_done ⟨Nat.le_refl _, nofun⟩

theorem play_lightens (w : World g) (script : Script) :
    (w.play script).Lightens w (scriptWork script - 1) false := by
  cases script with
  | nil => exact Outcome.ensures_done ⟨Nat.le_refl _, nofun⟩
  | cons c rest =>
    have hpos := one_le_scriptWork rest
    refine Outcome.ensures_call ⟨?_, nofun⟩
    change w.work + (c.work + (scriptWork rest - 1)) ≤ w.work + (scriptWork (c :: rest) - 1)
    rw [scriptWork]
    omega

theorem start_lightens (w : World g) (m : Nat) :
    (w.start m).Lightens w 0 ((Call.start m).enters w) := by
  unfold start
  split
  · rename_i hd
    simp only [Call.enters, hd]
    exact Outcome.ensures_done ⟨Nat.le_refl _, nofun⟩
  rename_i d hd
  obtain ⟨major, kind⟩ := d
  cases kind with
  | idle =>
    simp only [Call.enters, hd]
    exact Outcome.ensures_done ⟨Nat.le_refl _, nofun⟩
  | disk disk =>
    simp only [Call.enters, hd]
    exact Outcome.ensures_goto ⟨Nat.le_refl _, nofun⟩
  | automatic _ _ =>
    simp only [Call.enters, hd]
    exact Outcome.ensures_goto ⟨Nat.le_refl _, nofun⟩
  | manual changed =>
    obtain ⟨hle, htaken⟩ := (w.emit (.started major)).work_takeStart major
    have hscript : ((w.emit (.started major)).takeStart major).1 = (w.takeStart major).1 :=
      w.takeStart_emit _ major
    have hpos := one_le_scriptWork (w.takeStart major).1
    rw [hscript] at htaken
    simp only [Call.enters, hd]
    refine Outcome.ensures_goto ?_
    change _ + (scriptWork _ - 1) ≤ w.work + 0 ∧ (_ → _ + (scriptWork _ - 1) < w.work + 0)
    change _ ≤ w.work at hle
    change _ → _ ≤ w.work at htaken
    rw [hscript]
    by_cases hempty : (w.takeStart major).1 = []
    · rw [hempty]
      refine ⟨?_, nofun⟩
      change _ + 0 ≤ _
      exact hle
    · have := htaken hempty
      omega

theorem flushRounds_lightens (w : World g) (scope : Scope) (rounds writes : Nat) :
    (w.flushRounds scope rounds writes).Lightens w 0
      ((Call.flushRounds scope rounds writes).enters w) := by
  cases rounds with
  | zero => exact Outcome.ensures_done ⟨Nat.le_refl _, nofun⟩
  | succ rounds =>
    obtain ⟨hle, htaken⟩ := w.work_takeFlush
    have hpos := one_le_scriptWork w.takeFlush.1
    refine Outcome.ensures_call ?_
    change _ + (scriptWork w.takeFlush.1 - 1 + 0) ≤ w.work + 0 ∧
      (_ → _ + (scriptWork w.takeFlush.1 - 1 + 0) < w.work + 0)
    by_cases hempty : w.takeFlush.1 = []
    · have henters : (Call.flushRounds scope (rounds + 1) writes).enters w = false := by
        simp [Call.enters, hempty]
      rw [henters, hempty]
      exact ⟨hle, nofun⟩
    · have := htaken hempty
      omega

theorem checkMedium_lightens (w : World g) (d : DeviceNumber) :
    (w.checkMedium d).Lightens w 0 ((Call.checkMedium d).enters w) := by
  unfold checkMedium
  split
  · obtain ⟨hle, htaken⟩ := (w.note (.mediumChanged d)).work_takeEmptying d
    have hscript := w.takeEmptying_note (.mediumChanged d) d
    have hpos := one_le_scriptWork (w.takeEmptying d).1
    rw [hscript] at htaken
    change _ ≤ w.work at hle
    change _ → _ ≤ w.work at htaken
    refine Outcome.ensures_call ?_
    rw [hscript]
    change _ + (scriptWork (w.takeEmptying d).1 - 1 + 0) ≤ w.work + 0 ∧
      (_ → _ + (scriptWork (w.takeEmptying d).1 - 1 + 0) < w.work + 0)
    by_cases hempty : (w.takeEmptying d).1 = []
    · have henters : (Call.checkMedium d).enters w = false := by
        simp [Call.enters, hempty]
      rw [henters, hempty]
      exact ⟨hle, nofun⟩
    · have := htaken hempty
      omega
  · rename_i hchanged
    have henters : (Call.checkMedium d).enters w = false := by
      simp [Call.enters, hchanged]
    rw [henters]
    exact Outcome.ensures_done ⟨Nat.le_refl _, nofun⟩

/-! ### Laying down scripts -/

theorem perform_lightens (w : World g) (c : Command) :
    (w.perform c).Lightens w c.work false := by
  by_cases hplain : c.plain = true
  · exact (w.perform_plain hplain).unscripted.lightens c.work
  cases c with
  | register m d starts =>
    unfold perform
    dsimp only
    split
    · rename_i w' hw'
      refine Outcome.ensures_done ⟨?_, nofun⟩
      obtain ⟨c, -, rfl⟩ := Cache.map_eq_ok hw'
      refine (work_setStarts _ d.major starts).trans ?_
      change w.work + scriptsWork starts ≤ w.work + Command.work (.register m d starts)
      rw [Command.work]
      omega
    · exact Outcome.ensures_done ⟨Nat.add_le_add_left (Nat.zero_le _) _, nofun⟩
  | listen flushes =>
    have hold := one_le_scriptsWork (w.flushes.getD [])
    have hnew : scriptsWork (flushes.getD []) ≤ (Command.listen flushes).work := by
      cases flushes with
      | none => exact Nat.le_refl 1
      | some flushes =>
        rw [Command.work]
        exact Nat.le_add_left _ _
    refine Outcome.ensures_done ⟨?_, nofun⟩
    rw [work_eq, work_eq]
    change scriptsWork w.waiting + startsWork w.starts + scriptsWork (flushes.getD []) +
      1 + 0 ≤ _
    omega
  | attend emptyings =>
    have hold := one_le_scriptsWork w.emptyings
    refine Outcome.ensures_done ⟨?_, nofun⟩
    rw [work_eq, work_eq, Command.work]
    change scriptsWork w.waiting + startsWork w.starts + scriptsWork (w.flushes.getD []) +
      scriptsWork emptyings + 0 ≤ _
    omega
  | finish m success =>
    have hunscripted : (w.perform (.finish m success)).Unscripted w :=
      Outcome.ensures_orFault fun r hr => Outcome.ensures_done ⟨scripts_finish hr, rfl⟩
    exact hunscripted.lightens _
  | _ => exact absurd rfl hplain

end World

theorem Call.begin_lightens {s : Shape} (c : Call g s) (w : World g) :
    (c.begin w).Lightens w c.load (c.enters w) := by
  cases c with
  | sleep q ticket => exact w.sleep_lightens q ticket
  | play script => exact w.play_lightens script
  | request op i => exact (w.request_unscripted op i).lightens 0
  | enqueue op i d number => exact (w.enqueue_unscripted op i d number).lightens 0
  | start m => exact w.start_lightens m
  | serve m => exact (w.serve_unscripted m).lightens 0
  | flushRounds scope rounds writes => exact w.flushRounds_lightens scope rounds writes
  | checkMedium d => exact w.checkMedium_lightens d
  | drain m pattern upcoming ended =>
    exact (w.drain_unscripted m pattern upcoming ended).lightens 0
  | perform c => exact w.perform_lightens c
  | _ => exact (Call.begin_plain rfl w).unscripted.lightens 0

theorem Frame.resume_lightens {a s : Shape} (f : Frame g a s) (v : a.Value g) (w : World g) :
    (f.resume v w).Lightens w f.load false := by
  cases f with
  | playing rest => exact Outcome.ensures_goto ⟨Nat.le_refl _, nofun⟩
  | locking op i d => exact (w.locked_unscripted op i d).lightens 0
  | _ => exact (Frame.resume_plain rfl v w).unscripted.lightens 0

/-! ## Machines -/

namespace Machine

variable {m m' : Machine g}

theorem load_next {s : Shape} (n : Next g s) (w : World g) (stack : Stack g s) :
    (n.machine w stack).load = w.work + n.load + stack.load := by
  cases n with
  | done v => rfl
  | goto c => rfl
  | call c f =>
    change _ + _ + (_ + _) = _ + (_ + _) + _
    omega

/-- A step does not add to the load, and one that takes up a script makes it less. -/
theorem Steps.lightens (h : m.Steps m') :
    m'.load ≤ m.load ∧ (m.Enters → m'.load < m.load) := by
  cases h with
  | @begin s w w' c n stack hn =>
    obtain ⟨hle, hlt⟩ := c.begin_lightens w w' n hn
    rw [load_next]
    exact ⟨Nat.add_le_add_right hle _, fun henters => Nat.add_lt_add_right (hlt henters) _⟩
  | @resume a s w w' f v n stack hn =>
    obtain ⟨hle, -⟩ := f.resume_lightens v w w' n hn
    rw [load_next]
    refine ⟨?_, False.elim⟩
    change _ ≤ w.work + (f.load + stack.load)
    omega

end Machine
end BufferCache
