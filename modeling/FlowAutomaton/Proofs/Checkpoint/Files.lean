/-
What is left in files. A checkpoint or a text is written with one content, and how far that content
comes decides how the whole ends and what is left of it (`run_save`, `run_print`). A file that gives
back what it takes holds the checkpoint after it was saved, and after a print the text as far as it
was written.
-/
import FlowAutomaton.Proofs.Checkpoint.Accepted

namespace FlowAutomaton

/-! ## One content -/

namespace FileSystem

variable {σ : Type} [FileSystem σ] {path : String} {files : σ} {content : Stored}

theorem run_write_of_opens (h : opens (Text.beforeNul path) files = true) :
    (write path content).run files =
      ⟨.ok (progress (Text.beforeNul path) content files),
        put (Text.beforeNul path)
          ((progress (Text.beforeNul path) content files).taken content) files, []⟩ := by
  rw [write, Action.run_bind_quiet (Action.run_get files)]
  simp only [h, if_true]
  rfl

theorem run_write_of_not_opens (h : opens (Text.beforeNul path) files = false) :
    (write path content).run files = ⟨.error (.cannotWrite path), files, []⟩ := by
  rw [write, Action.run_bind_quiet (Action.run_get files)]
  simp only [h, Bool.false_eq_true, if_false]
  rfl

/-- What was written to an ordinary file to its end is what is read from it. -/
theorem contents_of_write (hb : ReadsBack path files)
    (hw : ((write path content).run files).result = .ok .complete) :
    contents path ((write path content).run files).state = .ok content := by
  cases ho : opens (Text.beforeNul path) files with
  | false =>
    rw [run_write_of_not_opens ho] at hw
    cases hw
  | true =>
    rw [run_write_of_opens ho] at hw ⊢
    have hp := Except.ok.inj hw
    simp only [hp, Progress.taken, contents, hb content hp]

end FileSystem

/-- The names in a directory lead to ordinary files. -/
theorem Storage.readsBack {path name : String} (h : place (Text.beforeNul path) = .file name)
    (st : Storage) : FileSystem.ReadsBack path st := by
  intro content _
  simp only [FileSystem.read, FileSystem.put, h, Table.find?_insert_self]

namespace Checkpoint

variable {g : Graph} {σ : Type} [FileSystem σ]

/-! ## Checkpoints -/

/-- How a checkpoint is saved: the files take what they take of its fields, and that decides whether
it was saved. -/
theorem run_save (path : String) (st : σ) :
    ((save path g).run st).result =
        ((FileSystem.write path (.checkpoint (fields g) 0)).run st).result >>= saved path ∧
      ((save path g).run st).state =
        ((FileSystem.write path (.checkpoint (fields g) 0)).run st).state := by
  rw [save, Action.run_timed, Action.run_bind]
  cases ((FileSystem.write path (.checkpoint (fields g) 0)).run st).result with
  | error e => exact ⟨rfl, rfl⟩
  | ok p => cases p <;> exact ⟨rfl, rfl⟩

/-- A checkpoint that was saved in an ordinary file is what is read from it. -/
theorem contents_of_save {path : String} {st : σ} (hb : FileSystem.ReadsBack path st)
    (hs : ((save path g).run st).result = .ok ()) :
    FileSystem.contents path ((save path g).run st).state = .ok (.checkpoint (fields g) 0) := by
  obtain ⟨hresult, hstate⟩ := run_save (g := g) path st
  rw [hresult] at hs
  rw [hstate]
  refine FileSystem.contents_of_write hb ?_
  match hw : ((FileSystem.write path (.checkpoint (fields g) 0)).run st).result with
  | .ok .complete => rfl
  | .ok (.broken n reason) =>
    rw [hw] at hs
    cases hs
  | .ok (.lost n) =>
    rw [hw] at hs
    cases hs
  | .error e =>
    rw [hw] at hs
    cases hs

/-- That a checkpoint was saved is not enough to load it: the device that takes everything holds
nothing. -/
theorem lost_on_null (g : Graph) (st : Storage) :
    ((save "/dev/null" g).run st).result = .ok () ∧
      ((load "/dev/null").run ((save "/dev/null" g).run st).state).result =
        .error (.unreadable "/dev/null") := by
  have hplace : Storage.place (Text.beforeNul "/dev/null") = .null := by rfl
  have hwrite : (FileSystem.write "/dev/null" (.checkpoint (fields g) 0)).run st =
      ⟨.ok .complete, st, []⟩ := by
    rw [FileSystem.run_write_of_opens]
    · simp only [FileSystem.progress, FileSystem.put, hplace, reduceCtorEq, if_false]
    · simp only [FileSystem.opens, hplace, ne_eq, reduceCtorEq, not_false_eq_true, decide_true]
  obtain ⟨hresult, hstate⟩ := run_save (g := g) "/dev/null" st
  refine ⟨?_, ?_⟩
  · rw [hresult, hwrite]
    rfl
  · rw [hstate, hwrite, result_load_eq, FileSystem.contents]
    simp only [FileSystem.read, hplace]

/-! ## Texts -/

/-- How a text is printed: the files take what they take of what was written, also where the text
ends for a failure, and that failure is the one that shows. -/
theorem run_print (path : String) (g : Graph) (loglevel : UInt32) (st : σ) :
    ((print path g loglevel).run st).result =
        (do
          let p ← ((FileSystem.write path (.text ((g.write loglevel).run "").state)).run st).result
          ((g.write loglevel).run "").result
          printed path p) ∧
      ((print path g loglevel).run st).state =
        ((FileSystem.write path (.text ((g.write loglevel).run "").state)).run st).state := by
  rw [print, Action.run_bind]
  cases ((FileSystem.write path (.text ((g.write loglevel).run "").state)).run st).result with
  | error e => exact ⟨rfl, rfl⟩
  | ok p =>
    simp only [Action.run_bind, Action.run_ofExcept]
    cases ((g.write loglevel).run "").result <;> exact ⟨rfl, rfl⟩

/-- An ordinary file that takes what is printed holds the text as far as it was written. The print
fails where the text does, and what it leaves cannot be loaded. -/
theorem contents_of_print {path : String} {loglevel : UInt32} {st : σ}
    (hb : FileSystem.ReadsBack path st)
    (hw : ((FileSystem.write path (.text ((g.write loglevel).run "").state)).run st).result =
      .ok .complete) :
    ((print path g loglevel).run st).result = (g.dump loglevel).map (fun _ => ()) ∧
      FileSystem.contents path ((print path g loglevel).run st).state =
        .ok (.text ((g.write loglevel).run "").state) ∧
      ((load path).run ((print path g loglevel).run st).state).result =
        .error (.unreadable path) := by
  obtain ⟨hresult, hstate⟩ := run_print path g loglevel st
  have hf := FileSystem.contents_of_write hb hw
  refine ⟨?_, ?_, ?_⟩
  · rw [hresult, hw, Graph.dump]
    cases ((g.write loglevel).run "").result <;> rfl
  · rw [hstate, hf]
  · rw [result_load_eq, hstate, hf]

end Checkpoint

end FlowAutomaton
