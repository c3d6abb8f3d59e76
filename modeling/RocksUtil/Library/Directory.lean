import Mathlib.Data.List.Infix
import Mathlib.Logic.Function.Basic

/-!
# Directories

Names, the files that they name, and what has been written to the files.  A file keeps
its contents when its name changes, and it may have more names than one, or none.
-/

/-- Names of files, and the items that the files hold. -/
structure Directory (Name Item : Type*) where
  /-- The file that has a name. -/
  names : Name → Option Nat
  /-- The items of a file, in order. -/
  contents : Nat → List Item
  /-- The next file that is created. -/
  fresh : Nat
  /-- All files that have a name have been created. -/
  created : ∀ name file, names name = some file → file < fresh

namespace Directory

variable {Name Item : Type*}

/-- No names. -/
def empty (Name Item : Type*) : Directory Name Item where
  names := fun _ => none
  contents := fun _ => []
  fresh := 0
  created := nofun

section Names

variable [DecidableEq Name]

/-- Give a file another name, which no other file has afterwards.  Nothing happens if
there is no such file, or if it has that name already. -/
def rename
    (directory : Directory Name Item)
    (source target : Name) : Directory Name Item :=
  match isFile : directory.names source with
  | none => directory
  | some file =>
      if directory.names target = some file then directory
      else
        { directory with
          names :=
            Function.update (Function.update directory.names source none) target (some file)
          created := by
            intro name other named
            by_cases isTarget : name = target
            · rw [isTarget, Function.update_self, Option.some.injEq] at named
              exact named ▸ directory.created source file isFile
            · rw [Function.update_of_ne isTarget] at named
              by_cases isSource : name = source
              · rw [isSource, Function.update_self] at named
                exact absurd named nofun
              · rw [Function.update_of_ne isSource] at named
                exact directory.created name other named }

/-- Open a file to write it anew: it is created if there is none of the name, and else
loses its items. -/
def openAnew
    (directory : Directory Name Item)
    (name : Name) : Nat × Directory Name Item :=
  match directory.names name with
  | some file =>
      (file, { directory with contents := Function.update directory.contents file [] })
  | none =>
      (directory.fresh,
        { names := Function.update directory.names name (some directory.fresh)
          contents := Function.update directory.contents directory.fresh []
          fresh := directory.fresh + 1
          created := by
            intro other file named
            by_cases same : other = name
            · rw [same, Function.update_self, Option.some.injEq] at named
              omega
            · rw [Function.update_of_ne same] at named
              have := directory.created other file named
              omega })

end Names

/-- Write items to the end of a file. -/
def append
    (directory : Directory Name Item)
    (file : Nat)
    (items : List Item) : Directory Name Item :=
  { directory with
    contents := Function.update directory.contents file (directory.contents file ++ items) }

@[simp] theorem names_append (directory : Directory Name Item) (file : Nat)
    (items : List Item) : (directory.append file items).names = directory.names := rfl

@[simp] theorem fresh_append (directory : Directory Name Item) (file : Nat)
    (items : List Item) : (directory.append file items).fresh = directory.fresh := rfl

@[simp] theorem contents_append_self (directory : Directory Name Item) (file : Nat)
    (items : List Item) :
    (directory.append file items).contents file = directory.contents file ++ items :=
  Function.update_self ..

theorem contents_append_of_ne
    (directory : Directory Name Item)
    {file other : Nat}
    (differ : other ≠ file)
    (items : List Item) :
    (directory.append file items).contents other = directory.contents other :=
  Function.update_of_ne differ ..

@[simp] theorem append_nil (directory : Directory Name Item) (file : Nat) :
    directory.append file [] = directory := by
  rw [append, List.append_nil, Function.update_eq_self]

theorem append_append
    (directory : Directory Name Item)
    (file : Nat)
    (first second : List Item) :
    (directory.append file first).append file second =
      directory.append file (first ++ second) := by
  simp only [append, Function.update_self, Function.update_idem, List.append_assoc]

/-! ## What is kept -/

/-- Every file has kept what it had. -/
structure Extends (before after : Directory Name Item) : Prop where
  fresh : before.fresh ≤ after.fresh
  keeps : ∀ file, file < before.fresh → before.contents file <+: after.contents file

theorem Extends.refl (directory : Directory Name Item) : Extends directory directory :=
  ⟨le_rfl, fun _ _ => List.prefix_rfl⟩

theorem Extends.trans
    {first second third : Directory Name Item}
    (front : Extends first second)
    (back : Extends second third) :
    Extends first third :=
  ⟨front.fresh.trans back.fresh, fun file isFile =>
    (front.keeps file isFile).trans (back.keeps file (isFile.trans_le front.fresh))⟩

theorem extends_append
    (directory : Directory Name Item)
    (file : Nat)
    (items : List Item) :
    Extends directory (directory.append file items) := by
  refine ⟨le_rfl, fun other _ => ?_⟩
  by_cases same : other = file
  · rw [same, contents_append_self]
    exact List.prefix_append ..
  · rw [contents_append_of_ne directory same]

/-! ## Moving a file away -/

section Rolls

variable [DecidableEq Name]

/-- A file is moved to a name that is free, and another one takes its place.  Where
there was no file, the name is left free. -/
structure Rolled
    (name archive : Name)
    (items : List Item)
    (before after : Directory Name Item) : Prop where
  free : before.names archive = none
  names : after.names =
    Function.update (Function.update before.names archive (before.names name)) name
      (some before.fresh)
  fresh : after.fresh = before.fresh + 1
  contents : after.contents = Function.update before.contents before.fresh items

/-- The names that are left when a file is moved to a name that is free. -/
theorem rename_of_free
    {directory : Directory Name Item}
    (source : Name)
    {target : Name}
    (free : directory.names target = none) :
    (directory.rename source target).names =
        Function.update (Function.update directory.names source none) target
          (directory.names source) ∧
      (directory.rename source target).contents = directory.contents ∧
      (directory.rename source target).fresh = directory.fresh := by
  unfold rename
  split
  · rename_i missing
    refine ⟨?_, rfl, rfl⟩
    have same : Function.update directory.names source none = directory.names := by
      rw [← missing, Function.update_eq_self]
    rw [same, missing, ← free, Function.update_eq_self]
  · rename_i file isFile
    have differ : directory.names target ≠ some file := by
      rw [free]
      exact nofun
    rw [if_neg differ]
    refine ⟨?_, rfl, rfl⟩
    exact congrArg (Function.update (Function.update directory.names source none) target)
      isFile.symm

/-- A file that is opened anew where no file has the name. -/
theorem openAnew_of_free
    {directory : Directory Name Item}
    {name : Name}
    (free : directory.names name = none) :
    (directory.openAnew name).1 = directory.fresh ∧
      (directory.openAnew name).2.names =
        Function.update directory.names name (some directory.fresh) ∧
      (directory.openAnew name).2.contents =
        Function.update directory.contents directory.fresh [] ∧
      (directory.openAnew name).2.fresh = directory.fresh + 1 := by
  unfold openAnew
  split
  · rename_i file isFile
    exact absurd (free.symm.trans isFile) nofun
  · exact ⟨rfl, rfl, rfl, rfl⟩

/-- Move a file away and open a new one in its place. -/
theorem rolled_openAnew
    {directory : Directory Name Item}
    {name archive : Name}
    (differ : archive ≠ name)
    (free : directory.names archive = none) :
    ((directory.rename name archive).openAnew name).1 = directory.fresh ∧
      Rolled name archive [] directory ((directory.rename name archive).openAnew name).2 := by
  obtain ⟨renamed, sameContents, sameFresh⟩ := rename_of_free name free
  have gone : (directory.rename name archive).names name = none := by
    rw [renamed, Function.update_of_ne differ.symm, Function.update_self]
  obtain ⟨isFresh, names, contents, fresh⟩ := openAnew_of_free gone
  rw [sameFresh] at isFresh names contents fresh
  rw [sameContents] at contents
  refine ⟨isFresh, free, ?_, fresh, contents⟩
  rw [names, renamed, Function.update_comm differ, Function.update_idem,
    Function.update_comm differ]

theorem Rolled.append
    {name archive : Name}
    {items : List Item}
    {before after : Directory Name Item}
    (rolled : Rolled name archive items before after)
    (more : List Item) :
    Rolled name archive (items ++ more) before (after.append before.fresh more) where
  free := rolled.free
  names := rolled.names
  fresh := rolled.fresh
  contents := by
    rw [Directory.append, rolled.contents, Function.update_self, Function.update_idem]

theorem Rolled.extends
    {name archive : Name}
    {items : List Item}
    {before after : Directory Name Item}
    (rolled : Rolled name archive items before after) :
    Extends before after := by
  refine ⟨?_, fun file isFile => ?_⟩
  · rw [rolled.fresh]
    exact Nat.le_succ _
  · rw [rolled.contents, Function.update_of_ne (Nat.ne_of_lt isFile)]

/-- A name that is not the one that is reused keeps its file. -/
theorem Rolled.names_of_some
    {name archive other : Name}
    {items : List Item}
    {before after : Directory Name Item}
    (rolled : Rolled name archive items before after)
    (elsewhere : other ≠ name)
    {file : Nat}
    (named : before.names other = some file) :
    after.names other = some file := by
  have notArchive : other ≠ archive := by
    rintro rfl
    exact absurd (rolled.free.symm.trans named) nofun
  rw [rolled.names, Function.update_of_ne elsewhere, Function.update_of_ne notArchive, named]

end Rolls

end Directory
