import Smalltalk.Proofs.Conversion

/-! # Files that a conversion keeps

Before anything is written it is checked that the output is not the input and, unless files are
overwritten by force, that nothing is there. Then the directories above the output are created, and
they can open a way that was closed when the check was made: with no directory `new`, nothing is
found at `new/../a.js`, and after `new` has been created `a.js` is found there. So the checks keep
the files that are there only from outputs that are reached without such a detour.

* `ConvertArguments.targets`: where the script of an input may go.
* `ConvertArguments.Guarded`: when the checks keep a script from a file that is there;
  `Converted.get?_of_spares` says that then the file is kept.
* `run_keeps_files`, `run_keeps_input`: hence what a whole run keeps. `run_overwrites_file` and
  `run_overwrites_input` show the detour, and the second also an input that is lost by force to the
  script of another one. -/

namespace Smalltalk

namespace FileTree

variable {t : FileTree} {here l : Location} {p q : Path} {e e' : FileEntry}

theorem sameLocation_of_find (hp : t.find here p = .ok (l, e)) (hq : t.find here q = .ok (l, e')) :
    t.sameLocation here p q = true := by
  unfold sameLocation
  rw [hp, hq]
  exact decide_eq_true rfl

theorem exists_find_of_sameLocation (h : t.sameLocation here q p = true)
    (hp : t.find here p = .ok (l, e)) : ∃ e', t.find here q = .ok (l, e') := by
  unfold sameLocation at h
  rcases hq : t.find here q with x | ⟨k, e'⟩ <;> rw [hq, hp] at h
  · cases h
  · obtain rfl : k = l := of_decide_eq_true h
    exact ⟨e', rfl⟩

end FileTree

namespace ConvertArguments

open World

/-! ### Where scripts may go -/

/-- The files where the script of an input may go, whether the output is taken for a directory or
for a file. Both can happen in one run: the detour can make a file of an output that was missing,
and so a directory, when the run began. -/
def targets (a : ConvertArguments) (extension : Text) (input : Path) : List Path :=
  [false, true].filterMap fun isDirectory =>
    match destinationIn a.output isDirectory extension input with
    | .ok (.file path) => some path
    | _ => none

variable {a : ConvertArguments} {settings : ConvertSettings} {input path : Path} {w w' : World}
  {k : Location} {c : Content}

theorem mem_targets_of_destination {extension : Text}
    (h : (w.run (a.destination extension input)).1 = .ok (.file path)) :
    path ∈ a.targets extension input := by
  rw [run_destination] at h
  refine List.mem_filterMap.mpr ⟨(a.output.map (isDirectoryIn w)).getD false, ?_, ?_⟩
  · cases (a.output.map (isDirectoryIn w)).getD false <;> simp
  · dsimp only at h
    rw [h]

/-! ### One input -/

/-- **The checks keep a script from the location `k`:** if its path ends there, it is straight, and
if files are overwritten by force, the input itself leads there. -/
def Guarded (w : World) (force : Bool) (input path : Path) (k : Location) : Prop :=
  path.location w.here = k → w.tree.Straight w.here path ∧
    (force = true → input ≠ Path.standard ∧ ∃ e, w.tree.find w.here input = .ok (k, e))

/-- The script of an input is kept from a location wherever it goes. -/
def Spares (a : ConvertArguments) (settings : ConvertSettings) (input : Path) (w : World)
    (k : Location) : Prop :=
  ∀ path, (w.run (a.destination settings.extension input)).1 = .ok (.file path) →
    Guarded w settings.force input path k

theorem Guarded.later {force : Bool} (h : Guarded w force input path k) (hl : w.Later w')
    (hk : w'.tree.get? k = some (.file c)) : Guarded w' force input path k := by
  intro hloc
  rw [hl.here] at hloc ⊢
  obtain ⟨hstraight, hown⟩ := h hloc
  refine ⟨hstraight.mono hl.within, fun hforce => ?_⟩
  obtain ⟨hne, e, hfind⟩ := hown hforce
  exact ⟨hne, .file c, FileTree.find_mono hl.within hfind hk⟩

/-- A straight way to a file that is there is seen by the checks, and they refuse it. -/
theorem Guarded.not_written {script : Text} {t t' : FileTree}
    (h : Guarded w settings.force input path k) (hwf : w.tree.WellFormed)
    (hk : w.tree.get? k = some (.file c)) (hp : Prepared a settings input w script (.file path))
    (ht : w.tree.Grown t) (hw : t.Wrote w.here path script t') : path.location w.here ≠ k := by
  intro hloc
  obtain ⟨hstraight, hown⟩ := h hloc
  have hmay := hp.mayWrite path rfl
  have hlocate : w.tree.locate w.here path = .ok k := by
    have hnew := hw.locate
    rw [hloc] at hnew
    exact FileTree.locate_of_grown hwf ht hstraight hnew (by rw [hk]; rfl)
  have hfind : w.tree.find w.here path = .ok (k, .file c) :=
    FileTree.find_ok.mpr ⟨hlocate, hk, fun _ => hw.not_slash⟩
  cases hforce : settings.force with
  | false => exact FileTree.status_ne_none hfind (hmay.not_there hforce)
  | true =>
    obtain ⟨hne, e, hinput⟩ := hown hforce
    have hsame := FileTree.sameLocation_of_find hinput hfind
    rw [hmay.not_input hne] at hsame
    cases hsame

/-- **What the work on one input keeps.** -/
theorem Converted.get?_of_spares {r : Except Failure Unit} (h : Converted a settings input w r w')
    (hs : Spares a settings input w k) (hwf : w.tree.WellFormed)
    (hk : w.tree.get? k = some (.file c)) : w'.tree.get? k = some (.file c) := by
  cases h with
  | refused => exact hk
  | printed hp => exact hk
  | stopped hp ht => exact ht.get?_of_some hk
  | written hp ht hw =>
    have hne := (hs _ hp.destination_eq).not_written hwf hk hp ht hw
    exact (hw.get?_of_ne hne.symm).trans (ht.get?_of_some hk)

/-! ### A whole run -/

/-- **What a run keeps:** a file that the checks keep from every script, wherever that may go. -/
theorem run_get?_of_guarded {settings : Settings} (hwf : w.tree.WellFormed)
    (hk : w.tree.get? k = some (.file c))
    (hs : ∀ input ∈ a.inputs, ∀ path ∈ a.targets settings.convert.extension input,
      Guarded w (settings.convertWith a.force).force input path k) :
    w.Later (w.run (a.run settings)).2 ∧
      (w.run (a.run settings)).2.tree.get? k = some (.file c) := by
  refine run_induction (P := fun w' => w.Later w' ∧ w'.tree.get? k = some (.file c)) w a settings
    ?_ ?_ ⟨.refl w, hk⟩
  · rintro input hin w₁ r w₂ hc ⟨hl, hk₁⟩
    have hs₁ : Spares a (settings.convertWith a.force) input w₁ k := fun path hpath =>
      (hs input hin path (mem_targets_of_destination hpath)).later hl hk₁
    exact ⟨hl.trans hc.later, hc.get?_of_spares hs₁ (hl.wellFormed hwf) hk₁⟩
  · rintro w₁ text ⟨hl, hk₁⟩
    exact ⟨⟨hl.here, hl.input, hl.within, hl.wellFormed⟩, hk₁⟩

end ConvertArguments

open ConvertArguments

variable {w : World} {a : ConvertArguments} {settings : Settings} {k : Location} {c : Content}

/-- **Without force a run keeps the files that are there,** whether it succeeds or fails, as far as
the ways to them are straight: a file keeps what it holds if no script may go there by way of a
directory that is still missing. -/
theorem run_keeps_files (hwf : w.tree.WellFormed)
    (hforce : (settings.convertWith a.force).force = false)
    (hk : w.tree.get? k = some (.file c))
    (hstraight : ∀ input ∈ a.inputs, ∀ path ∈ a.targets settings.convert.extension input,
      path.location w.here = k → w.tree.Straight w.here path) :
    (w.run (a.run settings)).2.tree.get? k = some (.file c) := by
  refine (run_get?_of_guarded hwf hk fun input hin path hpath hloc => ?_).2
  refine ⟨hstraight input hin path hpath hloc, fun htrue => ?_⟩
  rw [hforce] at htrue
  cases htrue

/-- A way through a directory that is there is straight. -/
theorem run_keeps_files_through_directory :
    let w : World := { tree := ⟨[(["a.st".toList], .file (.text ['='])),
      (["sub".toList], .directory), (["b.js".toList], .file (.text ['1']))]⟩ }
    let a : ConvertArguments := { inputs := ["a.st".toList], output := some "sub/../b.js".toList }
    w.tree.get? ["b.js".toList] = some (.file (.text ['1'])) ∧
      (w.run (a.run {})).2.tree.get? ["b.js".toList] = some (.file (.text ['1'])) :=
  ⟨by decide, run_keeps_files (by decide) (by decide) (by decide) (by decide)⟩

/-- A file is lost by way of a directory that is created for the script. -/
theorem run_overwrites_file :
    let w : World := { tree := ⟨[(["a.st".toList], .file (.text ['='])),
      (["b.js".toList], .file (.text ['1']))]⟩ }
    let a : ConvertArguments := { inputs := ["a.st".toList], output := some "new/../b.js".toList }
    w.tree.WellFormed ∧ (({} : Settings).convertWith a.force).force = false ∧
      w.tree.get? ["b.js".toList] = some (.file (.text ['1'])) ∧
      (w.run (a.run {})).2.tree.get? ["b.js".toList] = some (.file (.text ['=', '='])) :=
  ⟨by decide, by decide, by decide, by decide +kernel⟩

/-- **A run keeps its inputs,** whether it succeeds or fails, with force or without: a path that
names a file names the same file with what it held, as far as no script may go there by way of a
directory that is still missing and, with force, none but that of an input which leads there
itself. -/
theorem run_keeps_input {input : Path} (hwf : w.tree.WellFormed)
    (hinput : w.tree.find w.here input = .ok (k, .file c))
    (hstraight : ∀ other ∈ a.inputs, ∀ path ∈ a.targets settings.convert.extension other,
      path.location w.here = k → w.tree.Straight w.here path)
    (hforce : (settings.convertWith a.force).force = true →
      ∀ other ∈ a.inputs, ∀ path ∈ a.targets settings.convert.extension other,
        path.location w.here = k →
          other ≠ Path.standard ∧ w.tree.sameLocation w.here other input = true) :
    (w.run (a.run settings)).2.tree.find w.here input = .ok (k, .file c) := by
  have hk : w.tree.get? k = some (.file c) := (FileTree.find_ok.mp hinput).2.1
  have hguarded : ∀ other ∈ a.inputs, ∀ path ∈ a.targets settings.convert.extension other,
      Guarded w (settings.convertWith a.force).force other path k := by
    intro other hother path hpath hloc
    refine ⟨hstraight other hother path hpath hloc, fun htrue => ?_⟩
    obtain ⟨hne, hsame⟩ := hforce htrue other hother path hpath hloc
    exact ⟨hne, FileTree.exists_find_of_sameLocation hsame hinput⟩
  obtain ⟨hlater, hk'⟩ := run_get?_of_guarded hwf hk hguarded
  exact FileTree.find_mono hlater.within hinput hk'

/-- With force an input is kept from its own script under every spelling of its path. -/
theorem run_keeps_input_other_spelling :
    let w : World := { tree := ⟨[(["sub".toList], .directory),
      (["a.js".toList], .file (.text ['='])), (["b.st".toList], .file (.text ['=']))]⟩ }
    let a : ConvertArguments := { inputs := ["sub/../a.js".toList, "b.st".toList], force := true }
    w.tree.find w.here "a.js".toList = .ok (["a.js".toList], .file (.text ['='])) ∧
      (w.run (a.run {})).2.tree.find w.here "a.js".toList =
        .ok (["a.js".toList], .file (.text ['='])) :=
  ⟨rfl, run_keeps_input (by decide) rfl (by decide) (by decide)⟩

/-- An input is lost to its own script by way of a directory that is created for it, and with force
to the script of another input. -/
theorem run_overwrites_input :
    (let w : World := { tree := ⟨[(["a.st".toList], .file (.text ['=']))]⟩ }
    let a : ConvertArguments := { inputs := ["a.st".toList], output := some "new/../a.st".toList }
    w.tree.WellFormed ∧
      w.tree.find w.here "a.st".toList = .ok (["a.st".toList], .file (.text ['='])) ∧
      (w.run (a.run {})).2.tree.get? ["a.st".toList] = some (.file (.text ['=', '=']))) ∧
    (let w : World := { tree := ⟨[(["a.js".toList], .file (.text ['1'])),
      (["a.st".toList], .file (.text ['=']))]⟩ }
    let a : ConvertArguments := { inputs := ["a.js".toList, "a.st".toList], force := true }
    w.tree.WellFormed ∧
      w.tree.find w.here "a.js".toList = .ok (["a.js".toList], .file (.text ['1'])) ∧
      (w.run (a.run {})).2.tree.get? ["a.js".toList] = some (.file (.text ['=', '=']))) :=
  ⟨⟨by decide, rfl, by decide +kernel⟩, ⟨by decide, rfl, by decide +kernel⟩⟩

end Smalltalk
