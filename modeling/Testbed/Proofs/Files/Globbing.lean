import Testbed.Document.Basic
import Testbed.Proofs.Files.Ordering
import Testbed.Proofs.Results

/-!
# Patterns below a directory

A relative pattern is read from a directory by writing it behind the text of the directory, and the
whole is matched. Where the directory holds no character that is special in patterns, this is what
it should be: the pattern stays valid, and it matches exactly what it matches by itself, behind the
directory (`loadMatching_relative`). The characters of the directory are not protected, though, so
one that holds a special character is read as a pattern itself (`loadMatching_bracket`).
-/

namespace Testbed

namespace Glob

/-! ## §1 Literal characters -/

/-- Whether a character stands for itself in a pattern. -/
def IsLiteral (c : Char) : Prop :=
  c ≠ '?' ∧ c ≠ '*' ∧ c ≠ '['

instance : DecidablePred IsLiteral :=
  fun _ => inferInstanceAs (Decidable (_ ∧ _))

/-- A literal character in front is read as itself, and then the rest of the pattern. -/
theorem readFrom_literal {c : Char} (hc : IsLiteral c) (fuel position : Nat)
    (previous : Option Char) (cs : List Char) :
    readFrom (fuel + 1) position previous (c :: cs) =
      (.literal c :: ·) <$> readFrom fuel (position + 1) (some c) cs := by
  obtain ⟨hone, hmany, hwithin⟩ := hc
  rw [readFrom]
  exacts [hone, hmany, hwithin]

/-- Literal characters are read one by one, and what comes after them as by itself. -/
theorem readFrom_append {cs : List Char} (hcs : ∀ c ∈ cs, IsLiteral c) (fuel position : Nat)
    (previous : Option Char) (rest : List Char) :
    readFrom (cs.length + fuel) position previous (cs ++ rest) =
      (cs.map .literal ++ ·) <$>
        readFrom fuel (position + cs.length) (cs.getLast?.or previous) rest := by
  induction cs generalizing position previous with
  | nil => simp
  | cons c cs ih =>
    obtain ⟨hc, hrest⟩ := List.forall_mem_cons.mp hcs
    have hlast : (cs.getLast?.or (some c)) = (c :: cs).getLast?.or previous := by
      cases cs with
      | nil => rfl
      | cons d cs => simp [List.getLast?_cons]
    have hlength : (c :: cs).length + fuel = cs.length + fuel + 1 := by
      simp only [List.length_cons]
      omega
    have hposition : position + 1 + cs.length = position + (c :: cs).length := by
      simp only [List.length_cons]
      omega
    rw [hlength, List.cons_append, readFrom_literal hc, ih hrest, hlast, hposition,
      Functor.map_map]
    rfl

/-- A pattern that is valid at one position is valid at any other, and behind any character that a
    component can begin after. -/
theorem readFrom_eq_ok {fuel position position' : Nat} {previous previous' : Option Char}
    {cs : List Char} {tokens : List Token}
    (hprevious : previous.all (· = '/') = previous'.all (· = '/'))
    (h : readFrom fuel position previous cs = .ok tokens) :
    readFrom fuel position' previous' cs = .ok tokens := by
  -- of the position only faults know, and of the previous character whether it is a separator
  induction fuel generalizing position position' previous previous' cs tokens with
  | zero => exact h
  | succ fuel ih =>
    cases cs with
    | nil => exact h
    | cons c cs =>
      by_cases hone : c = '?'
      · subst hone
        obtain ⟨ts, hts, rfl⟩ := exists_ok_of_map h
        show (.one :: ·) <$> readFrom fuel (position' + 1) (some '?') cs = _
        rw [ih rfl hts]
        rfl
      by_cases hmany : c = '*'
      · subst hmany
        simp only [readFrom, hprevious] at h ⊢
        split
        · next hstars =>
          rw [hstars] at h
          obtain ⟨ts, hts, rfl⟩ := exists_ok_of_map h
          rw [ih rfl hts]
          rfl
        · next hstars =>
          rw [hstars] at h
          simp only at h
          -- two stars stand at the start of a component, which both sides agree on
          split at h
          · next hstart =>
            rw [if_pos hstart]
            split at h
            · exact h
            · obtain ⟨ts, hts, rfl⟩ := exists_ok_of_map h
              rw [ih rfl hts]
              rfl
            · cases h
          · cases h
        · next n hzero hsingle =>
          split at h
          · contradiction
          · contradiction
          · cases h
      by_cases hwithin : c = '['
      · subst hwithin
        simp only [readFrom] at h ⊢
        split at h
        · obtain ⟨ts, hts, rfl⟩ := exists_ok_of_map h
          rw [ih rfl hts]
          rfl
        · cases h
      have hc : IsLiteral c := ⟨hone, hmany, hwithin⟩
      rw [readFrom_literal hc] at h ⊢
      obtain ⟨ts, hts, rfl⟩ := exists_ok_of_map h
      rw [ih rfl hts]
      rfl

/-! ## §2 Matching -/

/-- Literal characters match themselves, and what comes after them matches by itself. -/
theorem matchesFrom_append (cs : List Char) (tokens : List Token) (text : List Char) :
    matchesFrom (cs.map .literal ++ tokens) text = true ↔
      ∃ rest, text = cs ++ rest ∧ matchesFrom tokens rest = true := by
  induction cs generalizing text with
  | nil => simp
  | cons c cs ih =>
    cases text with
    | nil => simp [matchesFrom]
    | cons d text =>
      simp only [List.map_cons, List.cons_append, matchesFrom, Bool.and_eq_true,
        decide_eq_true_eq, ih, List.cons.injEq]
      constructor
      · rintro ⟨rfl, rest, rfl, hrest⟩
        exact ⟨rest, ⟨rfl, rfl⟩, hrest⟩
      · rintro ⟨rest, ⟨rfl, rfl⟩, hrest⟩
        exact ⟨rfl, rest, rfl, hrest⟩

/-- A valid pattern is valid behind literal text too, if the text ends a component; what it matches
    then is what it matches by itself, behind the text. -/
theorem read_append {front pattern : String} {tokens : List Token}
    (hfront : ∀ c ∈ front.toList, IsLiteral c) (hend : front.toList.getLast?.all (· = '/'))
    (h : read pattern = .ok tokens) :
    ∃ behind, read (front ++ pattern) = .ok behind ∧
      ∀ text, matchesText behind text = true ↔
        ∃ rest, text = front ++ rest ∧ matchesText tokens rest = true := by
  have hrest : readFrom (pattern.toList.length + 1) (0 + front.toList.length)
      (front.toList.getLast?.or none) pattern.toList = .ok tokens := by
    refine readFrom_eq_ok ?_ h
    rw [Option.or_none, hend]
    rfl
  have hread : read (front ++ pattern) = .ok (front.toList.map .literal ++ tokens) := by
    rw [read, String.toList_append, List.length_append, Nat.add_assoc,
      readFrom_append hfront, hrest]
    rfl
  refine ⟨_, hread, fun text => ?_⟩
  rw [matchesText, matchesFrom_append]
  constructor
  · rintro ⟨rest, htext, hmatches⟩
    refine ⟨String.ofList rest, ?_, by rwa [matchesText, String.toList_ofList]⟩
    rw [← String.toList_inj, htext, String.toList_append, String.toList_ofList]
  · rintro ⟨rest, rfl, hmatches⟩
    exact ⟨rest.toList, String.toList_append, hmatches⟩

end Glob

/-! ## §3 Patterns from a directory -/

namespace Path

/-- What a relative path is written behind when it is read from a directory: the text of the
    directory, with a slash at its end unless the directory is the empty path. -/
def lead (base : Path) : String :=
  if base = "" ∨ base.toList.getLast? = some '/' then base else base ++ "/"

/-- A relative path is joined behind the base and its separator. -/
theorem join_of_relative {base p : Path} (h : isAbsolute p = false) :
    base.join p = base.lead ++ p := by
  simp only [join, lead, h, Bool.false_eq_true, if_false]
  split <;> rfl

/-- What a base puts in front of a relative path ends with a separator, or is empty. -/
theorem lead_ends (base : Path) : base.lead.toList.getLast?.all (· = '/') := by
  rw [lead]
  split
  · next h =>
    rcases h with rfl | h
    · rfl
    · simp [h]
  · simp

/-- A base without special characters puts none in front. -/
theorem lead_literal {base : Path} (h : ∀ c ∈ base.toList, Glob.IsLiteral c) :
    ∀ c ∈ base.lead.toList, Glob.IsLiteral c := by
  rw [lead]
  split
  · exact h
  · intro c hc
    rw [String.toList_append, List.mem_append] at hc
    rcases hc with hc | hc
    · exact h c hc
    · obtain rfl : c = '/' := by simpa using hc
      decide

end Path

namespace Document

/-- The documents of a relative pattern, read from a directory whose text holds no special
    character, are exactly the stored files that are `cwd.join r` for a text `r` that the pattern
    matches, in the order of their paths and each once. A text that begins with a slash, which a
    relative pattern matches only where it has nothing to put in front, is not joined: it stands
    behind the slash of the directory as it is. -/
theorem loadMatching_relative {store : StoredFiles} (hstore : store.Filled) {cwd : Path}
    (hcwd : ∀ c ∈ cwd.toList, Glob.IsLiteral c) {pattern : String}
    (hpattern : Path.isAbsolute pattern = false) {tokens : List Glob.Token}
    (hread : Glob.read pattern = .ok tokens) :
    ∃ paths : List Path,
      loadMatching store.fileSystem cwd pattern = paths.mapM (load store.fileSystem) ∧
      paths.Pairwise Path.Precedes ∧
      ∀ q, q ∈ paths ↔ q ∈ store.paths ∧
        ((∃ r, Path.isAbsolute r = false ∧ Glob.matchesText tokens r = true ∧ q = cwd.join r) ∨
          ∃ r, Path.isAbsolute r = true ∧ Glob.matchesText tokens r = true ∧
            q = cwd.lead ++ r) := by
  obtain ⟨behind, hbehind, hmatches⟩ :=
    Glob.read_append (Path.lead_literal hcwd) (Path.lead_ends cwd) hread
  rw [← Path.join_of_relative hpattern] at hbehind
  have hglob : store.fileSystem.glob (cwd.join pattern) =
      .ok (store.paths.filter (Glob.matchesText behind)) := by
    simp only [StoredFiles.fileSystem, StoredFiles.glob, hbehind, StoredFiles.paths]
  have hordered : (store.paths.filter (Glob.matchesText behind)).Pairwise Path.Precedes :=
    hstore.ordered.filter _
  refine ⟨_, ?_, hordered, fun q => ?_⟩
  · simp only [loadMatching, hglob, Path.sorted_eq_self hordered]
  · rw [List.mem_filter, hmatches]
    refine and_congr_right fun _ => ⟨?_, ?_⟩
    · rintro ⟨r, rfl, hr⟩
      cases habsolute : Path.isAbsolute r with
      | false => exact .inl ⟨r, habsolute, hr, (Path.join_of_relative habsolute).symm⟩
      | true => exact .inr ⟨r, habsolute, hr, rfl⟩
    · rintro (⟨r, hrelative, hr, rfl⟩ | ⟨r, -, hr, rfl⟩)
      · exact ⟨r, Path.join_of_relative hrelative, hr⟩
      · exact ⟨r, rfl, hr⟩

/-- Two files of a directory, and not the one of another directory that the pattern would match by
    itself. -/
theorem loadMatching_relative_yaml :
    let store := ((StoredFiles.empty.insert "/r/b.yaml" []).insert "/r/a.yaml" []).insert "a.yaml" []
    ∃ paths : List Path,
      loadMatching store.fileSystem "/r" "*.yaml" = paths.mapM (load store.fileSystem) ∧
      paths.Pairwise Path.Precedes ∧
      "/r/a.yaml" ∈ paths ∧ "/r/b.yaml" ∈ paths ∧ "a.yaml" ∉ paths := by
  intro store
  have hstore : store.Filled := .insert (.insert (.insert .empty _ _) _ _) _ _
  have hall : ("/r" : Path).toList.all (fun c => decide (Glob.IsLiteral c)) = true := by
    decide +kernel
  have hcwd : ∀ c ∈ ("/r" : Path).toList, Glob.IsLiteral c := by simpa using hall
  have hread : Glob.read "*.yaml" = .ok (.many :: ".yaml".toList.map .literal) :=
    ok_of_toOption_eq_some (by decide +kernel)
  obtain ⟨paths, hload, hordered, hpaths⟩ :=
    loadMatching_relative hstore hcwd (by decide +kernel) hread
  refine ⟨paths, hload, hordered, ?_, ?_, ?_⟩
  · exact (hpaths _).mpr ⟨by decide +kernel, .inl ⟨"a.yaml", by decide +kernel⟩⟩
  · exact (hpaths _).mpr ⟨by decide +kernel, .inl ⟨"b.yaml", by decide +kernel⟩⟩
  · intro hmem
    -- a path that begins with the directory begins with a slash
    have hlead : Path.lead "/r" = "/r/" := by decide +kernel
    obtain ⟨-, ⟨r, hr, -, hjoin⟩ | ⟨r, -, -, hjoin⟩⟩ := (hpaths _).mp hmem
    · rw [Path.join_of_relative hr, hlead, ← String.toList_inj] at hjoin
      simp at hjoin
    · rw [hlead, ← String.toList_inj] at hjoin
      simp at hjoin

/-- A directory with brackets in its name is read as a pattern: the file that stands in it and
    matches is not loaded, and a directory with a bracket that is not closed makes a valid pattern
    fail. -/
theorem loadMatching_bracket :
    let store := StoredFiles.empty.insert "/r/[a]/x.yaml" []
    (∃ tokens, Glob.read "*.yaml" = .ok tokens ∧ Glob.matchesText tokens "x.yaml" = true) ∧
      Path.join "/r/[a]" "x.yaml" ∈ store.paths ∧
      loadMatching store.fileSystem "/r/[a]" "*.yaml" = .ok [] ∧
      loadMatching store.fileSystem "/r/[a" "*.yaml" =
        .error (.load "/r/[a/*.yaml" (.unreadable (.badPattern ⟨3, .invalidRange⟩))) := by
  intro store
  have hread : Glob.read "*.yaml" = .ok (.many :: ".yaml".toList.map .literal) :=
    ok_of_toOption_eq_some (by decide +kernel)
  have hglob : store.fileSystem.glob (Path.join "/r/[a]" "*.yaml") = .ok [] :=
    ok_of_toOption_eq_some (by decide +kernel)
  have hfails : store.fileSystem.glob "/r/[a/*.yaml" = .error (.badPattern ⟨3, .invalidRange⟩) :=
    error_of_error?_eq_some (by decide +kernel)
  have hjoin : Path.join "/r/[a" "*.yaml" = "/r/[a/*.yaml" := by decide +kernel
  refine ⟨⟨_, hread, by decide +kernel⟩, by decide +kernel, ?_, ?_⟩
  · simp only [loadMatching, hglob, Path.sorted, List.mergeSort_nil, List.mapM_nil]
    rfl
  · simp only [loadMatching, hjoin, hfails]

end Document

end Testbed
