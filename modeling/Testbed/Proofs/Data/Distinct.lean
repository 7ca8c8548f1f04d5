import Mathlib.Data.List.Nodup
import Testbed.Proofs.Data.Sorted
import Testbed.Proofs.Number.Digits
import Testbed.Proofs.Text.Pieces

/-!
# Paths of leaves

A listing writes the route to a leaf as a path. A name ends where a point or a bracket begins, and
an index at its closing bracket; so where all names on the way can be written, the path says which
route it was written from (`Route.text_injective`).

In data whose keys are such names no two leaves are therefore listed under one path: what a listing
has for the path of a leaf is the text of that leaf, and the listing says where the leaves are and
what their texts are (`leaves_unambiguous`).
-/

namespace Testbed

/-! ## §1 Characters of a route -/

/-- The characters of a step: a name behind a point, or an index in brackets. -/
def Step.chars : Step → List Char
  | .key name => '.' :: name.toList
  | .index i => '[' :: (Nat.toDigits 10 i ++ [']'])

namespace Route

/-- Whether the names on a route can be written. -/
def IsWritable (r : Route) : Prop :=
  ∀ name, .key name ∈ r → Step.IsName name

/-- The characters of a route that goes on from another one. -/
def chars (r : Route) : List Char :=
  r.flatMap Step.chars

variable {r q : Route} {t : Step}

theorem IsWritable.tail (h : IsWritable (t :: r)) : IsWritable r :=
  fun name hname => h name (List.mem_cons_of_mem _ hname)

theorem indexRoute_toList (start : String) (i : Nat) :
    (Data.indexRoute start i).toList = start.toList ++ Step.chars (.index i) := by
  simp [Data.indexRoute, Step.chars, toString]

theorem indexRoute_ne_empty (start : String) (i : Nat) : Data.indexRoute start i ≠ "" := by
  intro hempty
  have hlist := indexRoute_toList start i
  simp [hempty, Step.chars] at hlist

theorem keyRoute_toList {start : String} (h : start ≠ "") (name : String) :
    (Data.keyRoute start name).toList = start.toList ++ Step.chars (.key name) := by
  rw [Data.keyRoute, if_neg h]
  simp [Step.chars]

/-- Behind something that is written already, a route is written as its characters. -/
theorem toList_textFrom {start : String} (h : start ≠ "") (r : Route) :
    (textFrom start r).toList = start.toList ++ r.chars := by
  induction r generalizing start with
  | nil => simp [textFrom, chars]
  | cons t r ih =>
    cases t with
    | key name =>
      have hnext : Data.keyRoute start name ≠ "" := by
        simp [Data.keyRoute, h]
      rw [textFrom, ih hnext, keyRoute_toList h, chars, chars, List.flatMap_cons, List.append_assoc]
    | index i =>
      rw [textFrom, ih (indexRoute_ne_empty start i), indexRoute_toList, chars, chars,
        List.flatMap_cons, List.append_assoc]

/-- The first name of a route has no point in front. -/
theorem toList_text_key {name : String} (h : name ≠ "") (r : Route) :
    '.' :: (text (.key name :: r)).toList = chars (.key name :: r) := by
  have hfirst : text (.key name :: r) = textFrom name r := rfl
  rw [hfirst, toList_textFrom h]
  rfl

theorem toList_text_index (i : Nat) (r : Route) :
    (text (.index i :: r)).toList = chars (.index i :: r) := by
  have hfirst : text (.index i :: r) = textFrom (Data.indexRoute "" i) r := rfl
  rw [hfirst, toList_textFrom (indexRoute_ne_empty "" i), indexRoute_toList]
  rfl

/-! ## §2 Routes of paths -/

/-- What goes on behind a name does not go on with a character of a name. -/
theorem head_chars (r : Route) : ∀ c ∈ r.chars.head?, c = '.' ∨ c = '[' := by
  cases r with
  | nil => simp [chars]
  | cons t r =>
    cases t with
    | key name => simp [chars, Step.chars]
    | index i => simp [chars, Step.chars]

/-- Two texts that are each cut where a mark stands are the same piece by piece. -/
theorem append_inj_of_marked {α : Type} {IsMark : α → Prop} {xs ys as bs : List α}
    (hxs : ∀ x ∈ xs, ¬ IsMark x) (hys : ∀ y ∈ ys, ¬ IsMark y) (has : ∀ a ∈ as.head?, IsMark a)
    (hbs : ∀ b ∈ bs.head?, IsMark b) (h : xs ++ as = ys ++ bs) : xs = ys ∧ as = bs := by
  rcases List.append_eq_append_iff.mp h with ⟨between, rfl, rfl⟩ | ⟨between, rfl, rfl⟩
  · -- what the second piece has more is no mark, and yet it is where the first is cut
    cases between with
    | nil => simp
    | cons c between => exact absurd (has c rfl) (hys c (by simp))
  · cases between with
    | nil => simp
    | cons c between => exact absurd (hbs c rfl) (hxs c (by simp))

/-- An index is written without the bracket that closes it. -/
theorem closing_notMem_toDigits (i : Nat) : ']' ∉ Nat.toDigits 10 i := by
  intro hmem
  exact absurd (Number.isDigit_of_mem_toDigits hmem) (by decide)

/-- Different indices are written differently. -/
theorem toDigits_injective {i j : Nat} (h : Nat.toDigits 10 i = Nat.toDigits 10 j) : i = j := by
  rw [← Number.digitsValue_toDigits i, h, Number.digitsValue_toDigits]

/-- Routes that can be written are written differently. -/
theorem chars_injective (hr : r.IsWritable) (hq : q.IsWritable) (h : r.chars = q.chars) :
    r = q := by
  -- a step ends where the next one begins, so the routes have their first steps in common
  induction r generalizing q with
  | nil =>
    cases q with
    | nil => rfl
    | cons u q => cases u <;> simp [chars, Step.chars] at h
  | cons t r ih =>
    cases q with
    | nil => cases t <;> simp [chars, Step.chars] at h
    | cons u q =>
      have hsplit : Step.chars t ++ chars r = Step.chars u ++ chars q := h
      cases t with
      | key name =>
        cases u with
        | key other =>
          -- a name ends where the next step begins, as it has no point and no bracket
          have hname (n : String) (hn : Step.IsName n) : ∀ c ∈ n.toList, ¬ (c = '.' ∨ c = '[') := by
            intro c hc hmark
            obtain ⟨hpoint, hopen, -⟩ := hn.2 c hc
            exact hmark.elim hpoint hopen
          obtain ⟨hnames, hrest⟩ := append_inj_of_marked
            (hname name (hr name List.mem_cons_self)) (hname other (hq other List.mem_cons_self))
            (head_chars r) (head_chars q) (List.cons.inj hsplit).2
          rw [String.toList_inj.mp hnames, ih hr.tail hq.tail hrest]
        | index j => simp [Step.chars] at hsplit
      | index i =>
        cases u with
        | key other => simp [Step.chars] at hsplit
        | index j =>
          -- an index ends at its bracket
          have hdigits :
              Nat.toDigits 10 i ++ ']' :: chars r = Nat.toDigits 10 j ++ ']' :: chars q := by
            simpa [Step.chars] using hsplit
          have hcut := Text.cutFirstOf_append_sep (closing_notMem_toDigits i) (chars r)
          rw [hdigits, Text.cutFirstOf_append_sep (closing_notMem_toDigits j)] at hcut
          obtain ⟨hindex, hrest⟩ := Prod.mk.inj (Option.some.inj hcut)
          rw [toDigits_injective hindex, ih hr.tail hq.tail hrest.symm]

/-- Only the route that leads nowhere is written as nothing. -/
theorem text_eq_empty_iff (hr : ∀ name, .key name ∈ r → name ≠ "") : text r = "" ↔ r = [] := by
  constructor
  · intro hempty
    cases r with
    | nil => rfl
    | cons t r =>
      cases t with
      | key name =>
        have hlist := toList_text_key (hr name List.mem_cons_self) r
        have hname : name.toList ≠ [] := by simpa using hr name List.mem_cons_self
        simp [hempty, chars, Step.chars, hname] at hlist
      | index i =>
        have hlist := toList_text_index i r
        simp [hempty, chars, Step.chars] at hlist
  · rintro rfl
    rfl

/-- A path that starts with a name does not start with a bracket. -/
theorem text_key_ne_text_index {name : String} (h : Step.IsName name) (r : Route) (i : Nat)
    (q : Route) : text (.key name :: r) ≠ text (.index i :: q) := by
  intro heq
  have hkey := toList_text_key h.1 r
  rw [heq, toList_text_index] at hkey
  -- the bracket would be the first character of the name
  obtain ⟨c, cs, hcs⟩ := List.exists_cons_of_ne_nil (show name.toList ≠ [] by simpa using h.1)
  have hbracket : '[' = c := by
    simpa [chars, Step.chars, hcs] using congrArg (fun l => l.tail.head?) hkey
  exact (h.2 c (by simp [hcs])).2.1 hbracket.symm

/-- The path of a leaf says which route leads to it. -/
theorem text_injective (hr : r.IsWritable) (hq : q.IsWritable) (h : text r = text q) : r = q := by
  have hnames {p : Route} (hp : p.IsWritable) (name : String) (hname : .key name ∈ p) :
      name ≠ "" := (hp name hname).1
  cases r with
  | nil => exact ((text_eq_empty_iff (hnames hq)).mp h.symm).symm
  | cons t r =>
    cases q with
    | nil => exact (text_eq_empty_iff (hnames hr)).mp h
    | cons u q =>
      apply chars_injective hr hq
      -- paths that start with a name are compared with a point put in front of both
      cases t with
      | key name =>
        cases u with
        | key other =>
          rw [← toList_text_key (hnames hr name List.mem_cons_self), h,
            toList_text_key (hnames hq other List.mem_cons_self)]
        | index j => exact absurd h (text_key_ne_text_index (hr name List.mem_cons_self) r j q)
      | index i =>
        cases u with
        | key other =>
          exact absurd h.symm (text_key_ne_text_index (hq other List.mem_cons_self) q i r)
        | index j => rw [← toList_text_index, h, toList_text_index]

end Route

namespace Data

/-! ## §3 Leaves and their places -/

/-- Data whose maps, at any depth, have keys that can be written in a route. -/
inductive Named : Data → Prop
  | scalar {d : Data} (h : d.isScalar = true) : Named d
  | list {items : List Data} (hitems : ∀ d ∈ items, Named d) : Named (list items)
  | map {entries : List (String × Data)} (hnames : ∀ name ∈ Keyed.keys entries, Step.IsName name)
      (hentries : ∀ name d, (name, d) ∈ entries → Named d) : Named (map entries)

/-- Whether a leaf with a text stands where a route leads. -/
def HasLeaf (d : Data) (r : Route) (text : String) : Prop :=
  ∃ l, at? r d = some l ∧ l.isScalar = true ∧ leafText l = text

variable {r : Route} {d l : Data}

theorem places_of_isScalar (h : d.isScalar = true) : places d = [([], d)] := by
  cases d with
  | map _ => cases h
  | list _ => cases h
  | _ => rfl

theorem mem_entryPlaces_of_mem {entries : List (String × Data)} {name : String}
    (hmem : (name, d) ∈ entries) (h : (r, l) ∈ places d) :
    (.key name :: r, l) ∈ entryPlaces entries := by
  induction entries with
  | nil => cases hmem
  | cons e rest ih =>
    obtain ⟨other, x⟩ := e
    rw [entryPlaces, List.mem_append]
    rcases List.mem_cons.mp hmem with heq | hmem
    · obtain ⟨rfl, rfl⟩ := Prod.mk.inj heq
      exact .inl (List.mem_map.mpr ⟨(r, l), h, rfl⟩)
    · exact .inr (ih hmem)

theorem mem_itemPlaces_of_getElem? {items : List Data} {j : Nat} (hget : items[j]? = some d)
    (h : (r, l) ∈ places d) (i : Nat) : (.index (i + j) :: r, l) ∈ itemPlaces i items := by
  induction items generalizing i j with
  | nil => simp at hget
  | cons x rest ih =>
    rw [itemPlaces, List.mem_append]
    cases j with
    | zero =>
      obtain rfl : x = d := by simpa using hget
      exact .inl (List.mem_map.mpr ⟨(r, l), h, rfl⟩)
    | succ j =>
      have hrest := ih (by simpa using hget) (i + 1)
      rw [Nat.add_right_comm, Nat.add_assoc] at hrest
      exact .inr hrest

/-- Every scalar has a place. -/
theorem mem_places_of_at? (hat : at? r d = some l) (hl : l.isScalar = true) :
    (r, l) ∈ places d := by
  induction r generalizing d with
  | nil =>
    obtain rfl := Option.some.inj hat
    simp [places_of_isScalar hl]
  | cons t r ih =>
    obtain ⟨x, hx, hinner⟩ := Option.bind_eq_some_iff.mp hat
    cases d with
    | map entries =>
      cases t with
      | key name => exact mem_entryPlaces_of_mem (Keyed.mem_of_get?_eq_some hx) (ih hinner)
      | index i => cases hx
    | list items =>
      cases t with
      | key name => cases hx
      | index i =>
        have hmem := mem_itemPlaces_of_getElem? hx (ih hinner) 0
        rwa [Nat.zero_add] at hmem
    | _ => cases t <;> cases hx

/-- The places of data in order are the routes that lead to scalars. -/
theorem mem_places_iff (hd : d.Ordered) :
    (r, l) ∈ places d ↔ at? r d = some l ∧ l.isScalar = true :=
  ⟨at?_of_mem_places hd, fun h => mem_places_of_at? h.1 h.2⟩

/-- Routes with different first steps differ, whatever comes behind. -/
theorem nodup_routes_append {t : Step} {inner outer : List (Route × Data)}
    (hinner : (inner.map (·.1)).Nodup) (houter : (outer.map (·.1)).Nodup)
    (h : ∀ p ∈ outer, ∀ q, p.1 ≠ t :: q) :
    ((inner.map (fun p => (t :: p.1, p.2)) ++ outer).map (·.1)).Nodup := by
  rw [List.map_append, List.map_map, List.nodup_append]
  refine ⟨?_, houter, ?_⟩
  · have hmap : inner.map ((·.1) ∘ fun p => (t :: p.1, p.2)) = (inner.map (·.1)).map (t :: ·) := by
      simp [Function.comp_def]
    rw [hmap]
    exact hinner.map (List.cons_injective)
  · intro a ha b hb heq
    obtain ⟨p, -, rfl⟩ := List.mem_map.mp ha
    obtain ⟨p', hp', rfl⟩ := List.mem_map.mp hb
    exact h p' hp' p.1 heq.symm

/-- No place comes twice in a map, where no key does. -/
theorem nodup_entryPlaces {entries : List (String × Data)} (hkeys : (Keyed.keys entries).Nodup)
    (h : ∀ name d, (name, d) ∈ entries → ((places d).map (·.1)).Nodup) :
    ((entryPlaces entries).map (·.1)).Nodup := by
  induction entries with
  | nil => exact List.nodup_nil
  | cons e rest ih =>
    obtain ⟨name, d⟩ := e
    obtain ⟨hname, hrest⟩ := List.nodup_cons.mp hkeys
    rw [entryPlaces]
    apply nodup_routes_append (h name d List.mem_cons_self)
    · exact ih hrest fun name d hmem => h name d (List.mem_cons_of_mem _ hmem)
    · -- the name does not come again
      intro p hp q hroute
      obtain ⟨other, x, q', hmem, hr, -⟩ := mem_entryPlaces hp
      have hsame : other = name := by simpa [hr] using congrArg List.head? hroute
      exact hname (List.mem_map.mpr ⟨(other, x), hmem, hsame⟩)

/-- No place comes twice in a list, as no index does. -/
theorem nodup_itemPlaces {items : List Data} (h : ∀ d ∈ items, ((places d).map (·.1)).Nodup)
    (i : Nat) : ((itemPlaces i items).map (·.1)).Nodup := by
  induction items generalizing i with
  | nil => exact List.nodup_nil
  | cons d rest ih =>
    rw [itemPlaces]
    apply nodup_routes_append (h d List.mem_cons_self)
    · exact ih (fun d hmem => h d (List.mem_cons_of_mem _ hmem)) (i + 1)
    · -- the items behind have greater indices
      intro p hp q hroute
      obtain ⟨j, x, q', -, hr, -⟩ := mem_itemPlaces hp
      have hsame : i + 1 + j = i := by simpa [hr] using congrArg List.head? hroute
      omega

/-- No two leaves are in one place. -/
theorem nodup_places (hd : d.Ordered) : ((places d).map (·.1)).Nodup := by
  induction hd with
  | list hitems ih => exact nodup_itemPlaces ih 0
  | map horder hentries ih => exact nodup_entryPlaces horder.nodup_keys ih
  | _ => exact List.nodup_singleton _

/-- Where all names can be written, so can the routes to all places. -/
theorem Named.isWritable (h : d.Named) (hmem : (r, l) ∈ places d) : r.IsWritable := by
  induction h generalizing r with
  | scalar h =>
    rw [places_of_isScalar h] at hmem
    obtain ⟨rfl, -⟩ := Prod.mk.inj (List.mem_singleton.mp hmem)
    intro name hname
    cases hname
  | list hitems ih =>
    obtain ⟨j, x, q, hget, rfl, hq⟩ := mem_itemPlaces hmem
    intro name hname
    exact ih x (List.mem_of_getElem? hget) hq name (by simpa using hname)
  | map hnames hentries ih =>
    obtain ⟨first, x, q, hentry, rfl, hq⟩ := mem_entryPlaces hmem
    intro name hname
    rcases List.mem_cons.mp hname with heq | hname
    · obtain rfl := Step.key.inj heq
      exact hnames name (List.mem_map.mpr ⟨(name, x), hentry, rfl⟩)
    · exact ih first x hentry hq name hname

/-! ## §4 Listings -/

/-- No path is listed twice. -/
theorem nodup_paths (hd : d.Ordered) (hnames : d.Named) :
    (Keyed.keys (leaves d).entries).Nodup := by
  have hpaths : Keyed.keys (leaves d).entries = ((places d).map (·.1)).map Route.text := by
    rw [leaves_entries, Keyed.keys, List.map_map, List.map_map]
    rfl
  rw [hpaths]
  refine List.Nodup.map_on ?_ (nodup_places hd)
  intro r hr q hq htext
  obtain ⟨p, hp, rfl⟩ := List.mem_map.mp hr
  obtain ⟨p', hp', rfl⟩ := List.mem_map.mp hq
  exact Route.text_injective (hnames.isWritable hp) (hnames.isWritable hp') htext

/-- Every scalar is listed, at the path of its route. -/
theorem mem_leaves_of_at? (hat : at? r d = some l) (hl : l.isScalar = true) :
    (Route.text r, leafText l) ∈ (leaves d).entries := by
  rw [leaves_entries]
  exact List.mem_map.mpr ⟨(r, l), mem_places_of_at? hat hl, rfl⟩

/-- Where two listings are the same, the leaves of the one are leaves of the other. -/
theorem HasLeaf.of_leaves_eq {d' : Data} (hnames : d.Named) (hd' : d'.Ordered) (hnames' : d'.Named)
    (heq : leaves d = leaves d') {text : String} (h : d.HasLeaf r text) : d'.HasLeaf r text := by
  obtain ⟨l, hat, hl, rfl⟩ := h
  have hlisted := mem_leaves_of_at? hat hl
  rw [heq, leaves_entries] at hlisted
  obtain ⟨⟨q, l'⟩, hplace, hentry⟩ := List.mem_map.mp hlisted
  obtain ⟨hpath, htext⟩ := Prod.mk.inj hentry
  -- the paths being the same, so are the routes
  obtain rfl : q = r := Route.text_injective (hnames'.isWritable hplace)
    (hnames.isWritable (mem_places_of_at? hat hl)) hpath
  obtain ⟨hat', hl'⟩ := at?_of_mem_places hd' hplace
  exact ⟨l', hat', hl', htext⟩

/-- A listing of data with keys that can be written has one entry for each leaf, and each under a
    path of its own; so what it has for the path of a leaf is the text of that leaf. Data with the
    same listing has leaves at the same places, with the same texts. -/
theorem leaves_unambiguous (hd : d.Ordered) (hnames : d.Named) :
    (∀ r l, (r, l) ∈ places d ↔ at? r d = some l ∧ l.isScalar = true) ∧
    ((places d).map (·.1)).Nodup ∧
    (leaves d).entries = (places d).map (fun p => (Route.text p.1, leafText p.2)) ∧
    (Keyed.keys (leaves d).entries).Nodup ∧
    (∀ r l, at? r d = some l → l.isScalar = true →
      (leaves d).get? (Route.text r) = some (leafText l)) ∧
    ∀ d' : Data, d'.Ordered → d'.Named → leaves d = leaves d' →
      ∀ r text, d.HasLeaf r text ↔ d'.HasLeaf r text := by
  refine ⟨fun r l => mem_places_iff hd, nodup_places hd, leaves_entries d, nodup_paths hd hnames,
    ?_, ?_⟩
  · intro r l hat hl
    exact Keyed.get?_eq_some_of_mem (nodup_paths hd hnames) (mem_leaves_of_at? hat hl)
  · intro d' hd' hnames' heq r text
    exact ⟨.of_leaves_eq hnames hd' hnames' heq, .of_leaves_eq hnames' hd hnames heq.symm⟩

/-- An empty map is not listed, and a number is listed as a text that writes it. -/
theorem leaves_unambiguous_port :
    let d := map [("extra", map []), ("servers", list [map [("port", int 80)]])]
    let d' := map [("servers", list [map [("port", text "80")]])]
    let route : Route := [.key "servers", .index 0, .key "port"]
    d.Ordered ∧ d.Named ∧ d'.Ordered ∧ d'.Named ∧ leaves d = leaves d' ∧
      (leaves d).get? "servers[0].port" = some "80" ∧ d'.HasLeaf route "80" := by
  intro d d' route
  have hport : Step.IsName "port" := by decide
  have hservers (x : Data) (hx : x.isScalar = true) : (list [map [("port", x)]]).Named := by
    have hserver : (map [("port", x)]).Named :=
      .map (by simpa using hport) (by simpa using .scalar hx)
    exact .list (by simpa using hserver)
  have hnames : d.Named := by
    refine .map (by decide) fun name x hmem => ?_
    have hcases : x = map [] ∨ x = list [map [("port", int 80)]] := by
      simp only [List.mem_cons, Prod.mk.injEq, List.not_mem_nil, or_false] at hmem
      exact hmem.imp And.right And.right
    rcases hcases with rfl | rfl
    · exact .map (by simp) (by simp)
    · exact hservers (int 80) rfl
  have hnames' : d'.Named := .map (by decide) (by simpa using hservers (text "80") rfl)
  have hd : d.Ordered := ordered_of_isSorted d (by decide)
  have hd' : d'.Ordered := ordered_of_isSorted d' (by decide)
  have heq : leaves d = leaves d' := by decide +kernel
  obtain ⟨-, -, -, -, hget, hsame⟩ := leaves_unambiguous hd hnames
  refine ⟨hd, hnames, hd', hnames', heq, hget route (int 80) rfl rfl, ?_⟩
  exact (hsame d' hd' hnames' heq route "80").mp ⟨int 80, rfl, rfl, rfl⟩

end Data

end Testbed
