import Smalltalk.Proofs.FileNames

/-! # Outputs stay where they belong

Below an output directory every script gets a name of its own, the stem of its input with the
extension of the settings, and this is always one ordinary component: the stem is not empty and has
no slash, and the settings refuse an extension with a slash or a dot. Without an output argument the
script goes beside its input, under the same stem. The one exception is an input such as `..b`:
without its extension it is no file name any more, so that the destination is `..`, and the script
would take the place of the directory above.

* `Path.IsBelow`, `Path.IsBeside`: the destinations that are right.
* `Path.isBelow_join`, `Path.isBeside_withExtension_iff`: which ones the paths are that are made.
* `destination_stays`: so it is for every input. `destination_leaves_directory` shows `..b`. -/

namespace Smalltalk

namespace Path

/-! ### Destinations that are right -/

/-- A path with the stem of an input and a given extension. -/
structure IsNamedAfter (input : Path) (extension : Text) (path : Path) : Prop where
  fileStem?_eq : path.fileStem? = input.fileStem?
  extension?_eq : path.extension? = some extension

/-- **A script below a directory:** one ordinary component behind those of the directory, named
after the input. -/
structure IsBelow (directory input : Path) (extension : Text) (path : Path) : Prop
    extends IsNamedAfter input extension path where
  joined : ∃ name, IsName name ∧ path = directory.join name ∧
    path.components = directory.components ++ [.normal name]

/-- **A script beside its input:** an ordinary component in place of the last one, under the same
parent, named after the input. -/
structure IsBeside (input : Path) (extension : Text) (path : Path) : Prop
    extends IsNamedAfter input extension path where
  parent?_eq : path.parent? = input.parent?
  components_eq : ∃ name, path.components = input.components.dropLast ++ [.normal name]

/-! ### Destinations that are made -/

variable {input p : Path} {name stem front tail extension : Text}

theorem fileStem?_eq_of_fileName? (h : p.fileName? = some name) :
    p.fileStem? = some (cutExtension name).1 := by
  rw [fileStem?, h, Option.map_some]

/-- The stem of an input stands before the last dot of what is named after it. -/
theorem isNamedAfter_of_fileName? (hinput : input.fileName? = some name)
    (hp : p.fileName? = some ((cutExtension name).1 ++ '.' :: extension))
    (hstem : (cutExtension name).1 ≠ []) (hdot : '.' ∉ extension) :
    IsNamedAfter input extension p where
  fileStem?_eq := by
    rw [fileStem?_eq_of_fileName? hp, fileStem?_eq_of_fileName? hinput,
      cutExtension_append hstem hdot]
  extension?_eq := by rw [extension?, hp, Option.bind_some, cutExtension_append hstem hdot]

/-- The stem of a name makes a name with every extension that the settings take. -/
theorem isName_stem (h : IsName name) (hext : Settings.IsExtension extension) :
    (cutExtension name).1 ≠ [] ∧ IsName ((cutExtension name).1 ++ '.' :: extension) := by
  obtain ⟨hfront, hstem⟩ := cutExtension_isPrefix h.ne_nil
  obtain ⟨hne, hslash, -, -⟩ := hext
  exact ⟨hstem, isName_append hstem (fun hmem => h.slash (hfront.subset hmem)) hne hslash⟩

/-- **Below a directory** every script is named after its input. -/
theorem isBelow_join (hinput : input.fileName? = some name)
    (hext : Settings.IsExtension extension) (directory : Path) :
    IsBelow directory input extension
      (directory.join ((cutExtension name).1 ++ '.' :: extension)) := by
  obtain ⟨front, tail, hspelled⟩ := exists_spelled hinput
  obtain ⟨hstem, hname⟩ := isName_stem hspelled.name hext
  have hcomponents := components_join hname directory
  exact ⟨isNamedAfter_of_fileName? hinput (fileName?_concat hcomponents) hstem hext.2.2.2,
    _, hname, rfl, hcomponents⟩

theorem Spelled.isBeside (h : Spelled input front name tail) (hp : ¬ IsDotStemmed input)
    (hext : Settings.IsExtension extension) :
    IsBeside input extension (input.withExtension extension) := by
  obtain ⟨hstem, hname⟩ := isName_stem h.name hext
  have hspelled : Spelled (input.withExtension extension) front
      ((cutExtension name).1 ++ '.' :: extension) [] :=
    ⟨by rw [h.withExtension_eq hp, List.append_nil], h.front, hname, isTail_nil⟩
  have hnamed := isNamedAfter_of_fileName? h.fileName?_eq hspelled.fileName?_eq hstem hext.2.2.2
  have hparent : (input.withExtension extension).parent? = input.parent? := by
    rw [hspelled.parent?_eq, h.parent?_eq]
  refine ⟨hnamed, hparent, (cutExtension name).1 ++ '.' :: extension, ?_⟩
  rw [hspelled.components_eq, h.components_eq, List.dropLast_concat]

/-- **Beside its input** goes every script but that of two dots with an extension. -/
theorem isBeside_withExtension_iff (hinput : input.fileName? = some name)
    (hext : Settings.IsExtension extension) :
    IsBeside input extension (input.withExtension extension) ↔ ¬ IsDotStemmed input := by
  obtain ⟨front, tail, hspelled⟩ := exists_spelled hinput
  refine ⟨fun hbeside hdots => ?_, fun hp => hspelled.isBeside hp hext⟩
  obtain ⟨name', hcomponents⟩ := hbeside.components_eq
  rw [components_withExtension_of_isDotStemmed hdots] at hcomponents
  cases List.append_cancel_left hcomponents

end Path

namespace ConvertArguments

open World

variable {w : World} {a : ConvertArguments} {input output : Path} {name : Text}

theorem stem_of_fileName? (hinput : input.fileName? = some name)
    (hstandard : input ≠ Path.standard) : stem input = .ok (Path.cutExtension name).1 := by
  rw [stem, if_neg hstandard, Path.fileStem?_eq_of_fileName? hinput]

/-- The destination of an input below a directory. -/
theorem destination_of_isDirectory (hinput : input.fileName? = some name)
    (hstandard : input ≠ Path.standard) (houtput : a.output = some output)
    (hne : output ≠ Path.standard) (hdirectory : isDirectoryIn w output = true)
    (extension : Text) : (w.run (a.destination extension input)).1 =
      .ok (.file (output.join ((Path.cutExtension name).1 ++ '.' :: extension))) := by
  rw [run_destination, houtput, Option.map_some, Option.getD_some, hdirectory, destinationIn,
    if_neg hne, if_pos rfl, stem_of_fileName? hinput hstandard]
  rfl

/-- The destination of an input without an output argument. -/
theorem destination_of_no_output (hstandard : input ≠ Path.standard) (houtput : a.output = none)
    (extension : Text) : (w.run (a.destination extension input)).1 =
      .ok (.file (input.withExtension extension)) := by
  rw [run_destination, houtput, destinationIn, if_neg hstandard]

end ConvertArguments

open ConvertArguments

variable {w : World} {a : ConvertArguments} {settings : Settings} {input : Path} {name : Text}

theorem Settings.isExtension_of_validate (h : settings.validate = .ok settings) :
    IsExtension settings.convert.extension := by
  unfold validate at h
  split at h
  · cases h
  · split at h
    · assumption
    · cases h

/-- **A script goes below the output directory or beside its input,** named after the input: with an
output directory always, and without an output argument exactly if the input is not two dots with an
extension. The destination of such an input is the directory above. -/
theorem destination_stays (hvalid : settings.validate = .ok settings)
    (hinput : input.fileName? = some name) (hstandard : input ≠ Path.standard) :
    (∀ output, a.output = some output → output ≠ Path.standard → isDirectoryIn w output = true →
      ∃ path, (w.run (a.destination settings.convert.extension input)).1 = .ok (.file path) ∧
        Path.IsBelow output input settings.convert.extension path) ∧
    (a.output = none →
      ∃ path, (w.run (a.destination settings.convert.extension input)).1 = .ok (.file path) ∧
        (Path.IsBeside input settings.convert.extension path ↔ ¬ Path.IsDotStemmed input) ∧
        (Path.IsDotStemmed input →
          path.components = input.components.dropLast ++ [.parent])) := by
  have hext := Settings.isExtension_of_validate hvalid
  constructor
  · intro output houtput hne hdirectory
    exact ⟨_, destination_of_isDirectory hinput hstandard houtput hne hdirectory _,
      Path.isBelow_join hinput hext output⟩
  · intro houtput
    exact ⟨_, destination_of_no_output hstandard houtput _,
      Path.isBeside_withExtension_iff hinput hext,
      fun hdots => Path.components_withExtension_of_isDotStemmed hdots _⟩

/-- An input with dots and a slash at its end, below a directory and without an output argument. -/
theorem destination_stays_dots :
    let w : World := { tree := ⟨[(["out".toList], .directory)]⟩ }
    let input : Path := "x/..a.b./".toList
    let below : ConvertArguments := { inputs := [input], output := some "out".toList }
    let beside : ConvertArguments := { inputs := [input] }
    (∃ path, (w.run (below.destination ['j', 's'] input)).1 = .ok (.file path) ∧
      Path.IsBelow "out".toList input ['j', 's'] path) ∧
    ∃ path, (w.run (beside.destination ['j', 's'] input)).1 = .ok (.file path) ∧
      (Path.IsBeside input ['j', 's'] path ↔ ¬ Path.IsDotStemmed input) := by
  intro w input below beside
  have hvalid : ({} : Settings).validate = .ok {} := by decide
  have hinput : input.fileName? = some "..a.b.".toList := by decide
  have hstandard : input ≠ Path.standard := by decide
  have hbelow := (destination_stays (w := w) (a := below) hvalid hinput hstandard).1
    "out".toList rfl (by decide) (by decide)
  obtain ⟨path, hpath, hbeside, -⟩ :=
    (destination_stays (w := w) (a := beside) hvalid hinput hstandard).2 rfl
  exact ⟨hbelow, path, hpath, hbeside⟩

/-- The script of `..b` would go to the directory above, and has neither its stem nor the extension
of the settings. -/
theorem destination_leaves_directory :
    let input : Path := "..b".toList
    let settings : Settings := {}
    settings.validate = .ok settings ∧ input.fileName? = some input ∧ input ≠ Path.standard ∧
      (({} : World).run (({ inputs := [input] } : ConvertArguments).destination
        settings.convert.extension input)).1 = .ok (.file "..".toList) ∧
      Path.components "..".toList = [.parent] ∧
      Path.fileStem? "..".toList ≠ input.fileStem? ∧ Path.extension? "..".toList = none :=
  ⟨by decide, by decide, by decide, rfl, by decide, by decide, by decide⟩

end Smalltalk
