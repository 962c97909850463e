import Stencil.Project.Module
import Stencil.Project.Server
import Stencil.Proofs.Project.NewFiles

/-! # Calls in sequence

    Everything that touches a project goes through six operations, the calls.
    However they follow one another, and whether they succeed or fail, what is in
    the project stays as it is, and only files that were written whole come to it
    (`existing_files_stay`). -/

namespace Stencil.Project

open Files (Disk Job Location Write)

/-- An operation on a project. -/
inductive Call where
  | writeFile (root path text : String)
  | generateModule (plan : ModulePlan)
  | previewModule (plan : ModulePlan)
  | copyServer (root : String) (overrides : Option String)
  | readTemplate (overrides : Option String) (name builtin : String)
  | findSchema (candidates : List String)

/-- The requests of a call, its result left aside. -/
def Call.job : Call → Job Unit
  | .writeFile root path text => do let _ ← (writeNewFile root path text).run
  | .generateModule plan => do let _ ← plan.generate.run
  | .previewModule plan => do let _ ← plan.preview.run
  | .copyServer root overrides => do let _ ← (setUpServer root overrides).run
  | .readTemplate overrides name builtin => do let _ ← (loadTemplate overrides name builtin).run
  | .findSchema candidates => do let _ ← locateSchema candidates

/-- Calls one after the other. -/
def callAll : List Call → Job Unit
  | [] => return ()
  | call :: rest => do
      call.job
      callAll rest

/-- **Existing files stay.**  In every sequence of calls on every disk:

    * each disk on the way has all entries of the disks before it, as they were;
    * a file at the end was there at the start, or was written on the way and has
      the whole text of that write;
    * a write only ever hits a place where there was nothing, and what it wrote is
      still there at the end;
    * a new file that is refused or there already is not written, nor is any
      other file. -/
theorem existing_files_stay (disk : Disk) (calls : List Call) :
    ((callAll calls).history disk).Pairwise Disk.Grows
      ∧ ((callAll calls).run disk).2 ∈ (callAll calls).history disk
      ∧ (∀ (place : Location) (content : ByteArray),
          Disk.entry? ((callAll calls).run disk).2 place = some (.file content) →
          disk.entry? place = some (.file content)
            ∨ ∃ write ∈ (callAll calls).writes disk,
                ((callAll calls).run disk).2.Holds write place)
      ∧ (∀ write ∈ (callAll calls).writes disk, ∃ place : Location,
          disk.entry? place = none ∧ ((callAll calls).run disk).2.Holds write place)
      ∧ (∀ root path text : String,
          ((writeNewFile root path text).run.run disk).1 ≠ .ok .written →
          ∀ (place : Location) (content : ByteArray),
            Disk.entry? ((writeNewFile root path text).run.run disk).2 place
              = some (.file content) →
            disk.entry? place = some (.file content)) := by
  refine ⟨Job.pairwise_history disk _, Job.run_mem_history disk _, ?_, ?_, ?_⟩
  · intro place content hfile
    exact Job.written_of_appears hfile
  · intro write hwrite
    exact Job.appears_of_written hwrite
  · intro root path text houtcome place content hfile
    rcases Job.written_of_appears hfile with hthere | ⟨write, hwrite, -⟩
    · exact hthere
    · exact absurd (of_mem_writes hwrite).1 houtcome

/-- A disk with one file. -/
def notes : Disk := ⟨Ordered.ofList [(["notes.txt"], .file "old".toUTF8)], []⟩

/-- On a disk with one file, that file is not written again, while another one is
    written. -/
theorem existing_files_stay_notes :
    ((writeNewFile "" "notes.txt" "new").run.run notes).1 ≠ .ok .written
      ∧ Disk.entry? ((writeNewFile "" "notes.txt" "new").run.run notes).2 ["notes.txt"]
        = some (.file "old".toUTF8)
      ∧ notes.entry? ["notes.txt"] = some (.file "old".toUTF8)
      ∧ ∃ write ∈ (callAll [.findSchema ["a"], .writeFile "" "src/a.ts" "new"]).writes notes,
          ((callAll [.findSchema ["a"], .writeFile "" "src/a.ts" "new"]).run notes).2.Holds write
            ["src", "a.ts"] := by
  have hnothing : writtenFile "notes.txt" "new"
      ((writeNewFile "" "notes.txt" "new").run.run notes).1 = [] := by
    decide +kernel
  have houtcome : ((writeNewFile "" "notes.txt" "new").run.run notes).1 ≠ .ok .written := by
    intro h
    rw [h] at hnothing
    cases hnothing
  have hold : Disk.entry? ((writeNewFile "" "notes.txt" "new").run.run notes).2 ["notes.txt"]
      = some (.file "old".toUTF8) := by
    decide +kernel
  have hnew : Disk.entry? ((callAll [.findSchema ["a"], .writeFile "" "src/a.ts" "new"]).run
      notes).2 ["src", "a.ts"] = some (.file "new".toUTF8) := by
    decide +kernel
  obtain ⟨-, -, happears, -, hnone⟩ :=
    existing_files_stay notes [.findSchema ["a"], .writeFile "" "src/a.ts" "new"]
  refine ⟨houtcome, hold, hnone "" "notes.txt" "new" houtcome _ _ hold, ?_⟩
  rcases happears _ _ hnew with hthere | hwritten
  · cases hthere
  · exact hwritten

end Stencil.Project
