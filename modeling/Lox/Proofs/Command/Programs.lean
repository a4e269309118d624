import Lox.Command.Execution

/-!
Programs over the world in memory. Some only look at it (`Reads`), and two may do the same but for
what they write to the output (`Alike`); both last through sequences.
-/

namespace Lox.Command

/-- The world but for its output. -/
def World.muted (w : World) : World :=
  { w with output := "" }

theorem World.muted_eq_iff {w w' : World} : w.muted = w'.muted ↔
    w.environment = w'.environment ∧ w.files = w'.files ∧ w.input = w'.input ∧
      w.errors = w'.errors := by
  simp [muted]

/-- The program changes nothing, and what it finds does not depend on the output. -/
def Reads {α : Type} (p : ExceptT Failure World.Program α) : Prop :=
  ∀ w w' : World, w.muted = w'.muted → (p w).1 = (p w').1 ∧ (p w).2 = w

/-- The programs come to the same and leave the same world, but for what they write to the
output. -/
def Alike {α : Type} (p q : ExceptT Failure World.Program α) : Prop :=
  ∀ w w' : World, w.muted = w'.muted → (p w).1 = (q w').1 ∧ (p w).2.muted = (q w').2.muted

section
variable {α β : Type} {p q : ExceptT Failure World.Program α}
  {f g : α → ExceptT Failure World.Program β} {w w' : World}

theorem bind_of_ok {a : α} (h : p w = (.ok a, w')) : (p >>= f) w = f a w' := by
  show (match p w with | (x, w') => ExceptT.bindCont f x w') = _
  rw [h]
  rfl

theorem bind_of_error {e : Failure} (h : p w = (.error e, w')) : (p >>= f) w = (.error e, w') := by
  show (match p w with | (x, w') => ExceptT.bindCont f x w') = _
  rw [h]
  rfl

theorem valueOf?_run (name : String) (w : World) :
    (liftM (World.host.valueOf? name) : ExceptT Failure World.Program (Option String)) w =
      (.ok (w.environment.lookup name), w) := rfl

theorem entry_run (path : String) (w : World) :
    (liftM (World.host.entry path) : ExceptT Failure World.Program Entry) w =
      (.ok (w.entry path), w) := rfl

namespace Reads

theorem run_eq (h : Reads p) (w : World) : p w = ((p w).1, w) :=
  Prod.ext rfl (h w w rfl).2

theorem bind (hp : Reads p) (hf : ∀ a, Reads (f a)) : Reads (p >>= f) := by
  intro w w' hw
  -- the first program leaves both worlds as they are, so the second one finds them alike too
  have hfirst := (hp w w' hw).1
  cases hr : (p w).1 with
  | ok a =>
    rw [bind_of_ok (hr ▸ hp.run_eq w), bind_of_ok ((hfirst ▸ hr) ▸ hp.run_eq w')]
    exact hf a w w' hw
  | error e =>
    rw [bind_of_error (hr ▸ hp.run_eq w), bind_of_error ((hfirst ▸ hr) ▸ hp.run_eq w')]
    exact ⟨rfl, rfl⟩

theorem of_except (x : Except Failure α) : Reads (ExceptT.mk (pure x)) :=
  fun _ _ _ => ⟨rfl, rfl⟩

theorem valueOf? (name : String) : Reads (liftM (World.host.valueOf? name)) := by
  intro w w' hw
  obtain ⟨henvironment, -⟩ := World.muted_eq_iff.mp hw
  refine ⟨?_, rfl⟩
  show Except.ok (w.environment.lookup name) = Except.ok (w'.environment.lookup name)
  rw [henvironment]

theorem entry (path : String) : Reads (liftM (World.host.entry path)) := by
  intro w w' hw
  obtain ⟨-, hfiles, -⟩ := World.muted_eq_iff.mp hw
  refine ⟨?_, rfl⟩
  show Except.ok (w.entry path) = Except.ok (w'.entry path)
  rw [World.entry, hfiles, World.entry]

theorem alike (h : Reads p) : Alike p p := by
  intro w w' hw
  refine ⟨(h w w' hw).1, ?_⟩
  rw [(h w w' hw).2, (h w' w hw.symm).2, hw]

end Reads

namespace Alike

theorem bind (hp : Alike p q) (hf : ∀ a, Alike (f a) (g a)) : Alike (p >>= f) (q >>= g) := by
  intro w w' hw
  obtain ⟨hresult, hworld⟩ := hp w w' hw
  generalize hr : p w = x at hresult hworld
  generalize hr' : q w' = y at hresult hworld
  obtain ⟨x, v⟩ := x
  obtain ⟨y, v'⟩ := y
  obtain rfl : x = y := hresult
  cases x with
  | ok a =>
    rw [bind_of_ok hr, bind_of_ok hr']
    exact hf a v v' hworld
  | error e =>
    rw [bind_of_error hr, bind_of_error hr']
    exact ⟨rfl, hworld⟩

theorem ite {p' q' : ExceptT Failure World.Program α} {c : Prop} [Decidable c] (h : Alike p q)
    (h' : Alike p' q') : Alike (if c then p else p') (if c then q else q') := by
  split
  · exact h
  · exact h'

theorem of_except (x : Except Failure α) : Alike (ExceptT.mk (pure x)) (ExceptT.mk (pure x)) :=
  (Reads.of_except x).alike

theorem save (path text : String) :
    Alike (liftM (World.host.save path text)) (liftM (World.host.save path text)) := by
  intro w w' hw
  obtain ⟨environment, files, input, output, errors⟩ := w
  obtain ⟨environment', files', input', output', errors'⟩ := w'
  obtain ⟨rfl, rfl, rfl, rfl⟩ := World.muted_eq_iff.mp hw
  show Except.ok (World.save _ path text).1 = Except.ok (World.save _ path text).1 ∧
    (World.save _ path text).2.muted = (World.save _ path text).2.muted
  unfold World.save
  cases Files.Path.ofText? path with
  | none => exact ⟨rfl, rfl⟩
  | some p =>
    dsimp only
    cases files.makeParents p with
    | error r => exact ⟨rfl, rfl⟩
    | ok made =>
      dsimp only
      cases made.writeFile p (bytesOfText text) with
      | error r => exact ⟨rfl, rfl⟩
      | ok files => exact ⟨rfl, rfl⟩

/-- Whatever is written to the output. -/
theorem write (text text' : String) :
    Alike (liftM (World.host.write text)) (liftM (World.host.write text')) :=
  fun _ _ hw => ⟨rfl, hw⟩

theorem writeError (text : String) :
    Alike (liftM (World.host.writeError text)) (liftM (World.host.writeError text)) :=
  fun _ _ hw => ⟨rfl, congrArg (fun w : World => { w with errors := w.errors ++ text }) hw⟩

theorem forEachLine {before before' : ExceptT Failure World.Program Unit}
    {body body' : Option String → ExceptT Failure World.Program Unit}
    (hbefore : Alike before before') (hbody : ∀ line, Alike (body line) (body' line)) :
    Alike (World.host.forEachLine before body) (World.host.forEachLine before' body') := by
  have hlines : ∀ lines, Alike (World.forEachLine before body lines)
      (World.forEachLine before' body' lines) := by
    intro lines
    induction lines with
    | nil => exact hbefore
    | cons line lines ih => exact hbefore.bind fun _ => (hbody _).bind fun _ => ih
  intro w w' hw
  -- alike worlds have the same lines of input
  obtain ⟨-, -, hinput, -⟩ := World.muted_eq_iff.mp hw
  have h := hlines (linesOf [] w.input) w w' hw
  exact ⟨h.1.trans (by rw [hinput]; rfl), h.2.trans (by rw [hinput]; rfl)⟩

end Alike

end

end Lox.Command
