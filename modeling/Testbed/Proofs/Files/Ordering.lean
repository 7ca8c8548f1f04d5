import Mathlib.Data.String.Basic
import Testbed.Files.FileSystem

/-!
# The order of paths

Paths are in order component by component. The order is total, and two paths are each at most the
other exactly where they have the same components. Files in memory stand in this order, no two of
them under the same path, whatever was stored one after the other (`StoredFiles.Filled.ordered`).
-/

namespace Testbed

namespace Path

/-! ## §1 Components -/

theorem componentLe_total (a b : Component) : componentLe a b = true ∨ componentLe b a = true := by
  cases a <;> cases b <;> simp [componentLe, le_total]

theorem componentLe_trans {a b c : Component} (hab : componentLe a b = true)
    (hbc : componentLe b c = true) : componentLe a c = true := by
  cases a with
  | name s =>
    cases b with
    | name t =>
      cases c with
      | name u =>
        simp only [componentLe, decide_eq_true_eq] at hab hbc ⊢
        exact le_trans hab hbc
      | _ => simp [componentLe] at hbc
    | _ => simp [componentLe] at hab
  | _ => cases b <;> cases c <;> simp_all [componentLe]

theorem componentLe_antisymm {a b : Component} (hab : componentLe a b = true)
    (hba : componentLe b a = true) : a = b := by
  cases a with
  | name s =>
    cases b with
    | name t =>
      simp only [componentLe, decide_eq_true_eq] at hab hba
      rw [le_antisymm hab hba]
    | _ => simp [componentLe] at hab
  | _ => cases b <;> simp_all [componentLe]

/-! ## §2 Lists of components -/

theorem componentsLe_total (as bs : List Component) :
    componentsLe as bs = true ∨ componentsLe bs as = true := by
  induction as generalizing bs with
  | nil => simp [componentsLe]
  | cons a as ih =>
    cases bs with
    | nil => simp [componentsLe]
    | cons b bs =>
      by_cases hab : a = b
      · subst hab
        simpa [componentsLe] using ih bs
      · simpa [componentsLe, hab, Ne.symm hab] using componentLe_total a b

/-- The order of components carries over to lists of them. -/
theorem componentsLe_trans {as bs cs : List Component} (hab : componentsLe as bs = true)
    (hbc : componentsLe bs cs = true) : componentsLe as cs = true := by
  induction as generalizing bs cs with
  | nil => simp [componentsLe]
  | cons a as ih =>
    cases bs with
    | nil => simp [componentsLe] at hab
    | cons b bs =>
      cases cs with
      | nil => simp [componentsLe] at hbc
      | cons c cs =>
        simp only [componentsLe] at hab hbc ⊢
        by_cases hab' : a = b
        · subst hab'
          rw [if_pos rfl] at hab
          split
          · next hac => exact ih hab (by simpa [hac] using hbc)
          · next hac => simpa [hac] using hbc
        · rw [if_neg hab'] at hab
          by_cases hbc' : b = c
          · subst hbc'
            simpa [hab'] using hab
          · rw [if_neg hbc'] at hbc
            have hac : a ≠ c := by
              -- otherwise `a` and `b` are each at most the other
              rintro rfl
              exact hab' (componentLe_antisymm hab hbc)
            simpa [hac] using componentLe_trans hab hbc

theorem componentsLe_antisymm {as bs : List Component} (hab : componentsLe as bs = true)
    (hba : componentsLe bs as = true) : as = bs := by
  induction as generalizing bs with
  | nil =>
    cases bs with
    | nil => rfl
    | cons b bs => simp [componentsLe] at hba
  | cons a as ih =>
    cases bs with
    | nil => simp [componentsLe] at hab
    | cons b bs =>
      simp only [componentsLe] at hab hba
      by_cases heq : a = b
      · subst heq
        rw [if_pos rfl] at hab hba
        rw [ih hab hba]
      · rw [if_neg heq] at hab
        rw [if_neg (Ne.symm heq)] at hba
        exact absurd (componentLe_antisymm hab hba) heq

/-! ## §3 Paths -/

/-- Whether a path stands in front of another one in order: it is at most the other, and the two
    have not the same components. -/
def Precedes (p q : Path) : Prop :=
  p.le q = true ∧ p.same q = false

/-- Paths are the same if their components are. -/
theorem same_iff {p q : Path} : p.same q = true ↔ components p = components q := by
  simp [same]

theorem precedes_of_not_le {p q : Path} (h : ¬ p.le q = true) : Precedes q p := by
  have hle : q.le p = true := (componentsLe_total (components p) (components q)).resolve_left h
  refine ⟨hle, Bool.eq_false_iff.mpr fun hsame => h ?_⟩
  rw [le, ← same_iff.mp hsame]
  exact (componentsLe_total (components q) (components q)).elim id id

/-- What is strictly before a path is strictly before those that are not before it. -/
theorem Precedes.trans_le {p q r : Path} (h : Precedes p q) (hqr : q.le r = true) :
    Precedes p r := by
  refine ⟨componentsLe_trans h.1 hqr, Bool.eq_false_iff.mpr fun hsame => ?_⟩
  -- then `q` is at most `p` as well
  have hqp : componentsLe (components q) (components p) = true := by
    rw [same_iff.mp hsame]
    exact hqr
  exact Bool.eq_false_iff.mp h.2 (same_iff.mpr (componentsLe_antisymm h.1 hqp))

/-- Paths that stand in order are sorted already. -/
theorem sorted_eq_self {ps : List Path} (h : ps.Pairwise Precedes) : sorted ps = ps :=
  List.mergeSort_of_pairwise (h.imp fun hprecedes => hprecedes.1)

end Path

/-! ## §4 Files in memory -/

namespace StoredFiles

/-- The paths that files are stored under. -/
def paths (store : StoredFiles) : List Path :=
  store.files.map (·.1)

/-- Whether files are in memory because they were stored one after the other. -/
inductive Filled : StoredFiles → Prop
  | empty : Filled .empty
  | insert {store : StoredFiles} (h : Filled store) (path : Path) (contents : List UInt8) :
      Filled (store.insert path contents)

/-- A file that is stored stands under its path, or under a spelling of it that was there. -/
theorem exists_mem_of_mem_insertInto {path q : Path} {contents : List UInt8}
    {files : List (Path × List UInt8)}
    (h : q ∈ (insertInto path contents files).map (·.1)) :
    q = path ∨ q ∈ files.map (·.1) := by
  induction files with
  | nil => simpa [insertInto] using h
  | cons file rest ih =>
    obtain ⟨p, c⟩ := file
    rw [insertInto] at h
    split at h
    · exact .inr (by simpa using h)
    · split at h
      · simpa using h
      · rcases List.mem_cons.mp h with rfl | h
        · exact .inr List.mem_cons_self
        · exact (ih h).imp id (List.mem_cons_of_mem _)

/-- Storing a file keeps the order of the paths. -/
theorem pairwise_insertInto (path : Path) (contents : List UInt8)
    {files : List (Path × List UInt8)} (h : (files.map (·.1)).Pairwise Path.Precedes) :
    ((insertInto path contents files).map (·.1)).Pairwise Path.Precedes := by
  induction files with
  | nil => simp [insertInto]
  | cons file rest ih =>
    obtain ⟨p, c⟩ := file
    obtain ⟨hp, hrest⟩ := List.pairwise_cons.mp h
    rw [insertInto]
    split
    · exact h
    · next hsame =>
      split
      · next hle =>
        have hfirst : Path.Precedes path p := by
          refine ⟨hle, Bool.eq_false_iff.mpr fun heq => hsame ?_⟩
          exact Path.same_iff.mpr (Path.same_iff.mp heq).symm
        refine List.pairwise_cons.mpr ⟨?_, h⟩
        intro q hq
        rcases List.mem_cons.mp hq with rfl | hq
        · exact hfirst
        · exact hfirst.trans_le (hp q hq).1
      · next hle =>
        refine List.pairwise_cons.mpr ⟨?_, ih hrest⟩
        intro q hq
        rcases exists_mem_of_mem_insertInto hq with rfl | hq
        · exact Path.precedes_of_not_le hle
        · exact hp q hq

/-- Files in memory stand in the order of their paths, no two under the same path. -/
theorem Filled.ordered {store : StoredFiles} (h : Filled store) :
    store.paths.Pairwise Path.Precedes := by
  induction h with
  | empty => exact .nil
  | insert _ path contents ih => exact pairwise_insertInto path contents ih

end StoredFiles

end Testbed
