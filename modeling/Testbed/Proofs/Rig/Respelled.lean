import Testbed.Proofs.Binding.Enclosing
import Testbed.Proofs.Binding.Grammar
import Testbed.Proofs.Rig.Absent

/-!
# Spellings of entries

An entry of actions can be spelled in more than one way: a text is short for a key without a
payload, no payload is an empty one, and a list is the payload of a group that has it for its
actions. Spellings of one entry are read alike, whether the entry is in order or not
(`Entry.Respells.read_eq`). So wherever in a document an entry stands, another spelling of it leaves
every walk as it is, with its errors and their locations (`respelled_alike`).

An entry that is refused is refused for its key and for what its payload shows at once. What else is
in the payload is not looked at, entries among it, which may be spelled in any way as well
(`Entry.read_put_of_refused`).
-/

namespace Testbed

/-! ## §1 Entries -/

namespace Entry

/-- The verb that a key begins with. -/
def verbText (key : String) : String :=
  (Text.pieces '/' key).headD ""

/-- Whether one entry is another spelling of another. -/
inductive Respells : Data → Data → Prop
  | text {verb service : String} (hverb : verb = "bench" ∨ verb = "execute")
      (hservice : service ≠ "") (hslash : '/' ∉ service.toList) :
      Respells (.text (verb ++ "/" ++ service)) (.map [(verb ++ "/" ++ service, .null)])
  | null {key : String} (hverb : verbText key ≠ "not") :
      Respells (.map [(key, .null)]) (.map [(key, .map [])])
  | list {key : String} {actions : List Data}
      (hverb : verbText key = "parallel" ∨ verbText key = "sequential") :
      Respells (.map [(key, .list actions)]) (.map [(key, .map [("actions", .list actions)])])

variable {key : String} {k : Key}

/-- The verb of a key is the text before its first separator. -/
theorem verb_of_key_read (h : Key.read key = .ok k) : k.verb = verbText key := by
  obtain ⟨verb, rest, hkey, rfl⟩ := isKey_of_key_read h
  rw [verbText, hkey.1]
  rfl

/-- A text is read as a key without a payload. -/
theorem readShorthand_eq {verb service : String} (hverb : verb = "bench" ∨ verb = "execute")
    (hservice : service ≠ "") (hslash : '/' ∉ service.toList) :
    readShorthand (verb ++ "/" ++ service) = readKeyed (verb ++ "/" ++ service) .null := by
  have hplain : '/' ∉ verb.toList := by rcases hverb with rfl | rfl <;> decide
  have hpieces : Text.pieces '/' (verb ++ "/" ++ service) = [verb, service] :=
    Text.pieces_eq_pair_iff.mpr ⟨rfl, hplain, hslash⟩
  have hne : verb ≠ "" := by rcases hverb with rfl | rfl <;> decide
  have hkey : IsKey (verb ++ "/" ++ service) [verb, service] :=
    ⟨hpieces, by simp, by simp [hne.symm, hservice.symm]⟩
  unfold readShorthand readKeyed
  rw [hpieces, key_read_of_isKey hkey, ok_bind]
  rcases hverb with rfl | rfl <;> simp [hservice, verb?, Key.requireService, payloadMap]

/-- No payload is read as an empty one. -/
theorem readKeyed_null (hverb : verbText key ≠ "not") :
    readKeyed key (.map []) = readKeyed key .null := by
  unfold readKeyed
  cases hread : Key.read key with
  | error cause => rfl
  | ok k =>
    rw [ok_bind, ok_bind]
    cases hk : verb? k.verb with
    | none => rfl
    | some verb =>
      cases verb with
      | not => exact absurd (verb?_eq_not_iff.mp hk) (verb_of_key_read hread ▸ hverb)
      | _ => rfl

/-- A list is read as the map that has it for its actions. -/
theorem readKeyed_actions (hverb : verbText key = "parallel" ∨ verbText key = "sequential")
    (actions : List Data) :
    readKeyed key (.map [("actions", .list actions)]) = readKeyed key (.list actions) := by
  unfold readKeyed
  cases hread : Key.read key with
  | error cause => rfl
  | ok k =>
    rw [ok_bind, ok_bind, verb_of_key_read hread]
    rcases hverb with hverb | hverb <;> rw [hverb] <;> rfl

/-- Spellings of one entry are read alike. -/
theorem Respells.read_eq {x y : Data} (h : Respells x y) : read y = read x := by
  cases h with
  | text hverb hservice hslash => exact (readShorthand_eq hverb hservice hslash).symm
  | null hverb => exact readKeyed_null hverb
  | list hverb => exact readKeyed_actions hverb _

/-- What is inside of a payload says nothing about an entry that is refused. -/
theorem readKeyed_setChild {payload : Data} (hordered : payload.IsOrdered) {cause : Cause}
    (h : readKeyed key payload = .error cause) {t : Step} {x : Data}
    (hx : Data.child? t payload = some x) (y : Data) :
    readKeyed key (Data.setChild t y payload) = .error cause := by
  cases payload with
  | map es =>
    cases t with
    | key name =>
      have hkeys := (hordered es rfl).keys_insert hx y
      rw [Data.setChild, readKeyed_map (fun _ => expectationKind_eq_of_keys_eq none hkeys)
        fun _ => Keyed.has_eq_of_keys_eq hkeys "action", h]
      rfl
    | index i => exact h
  | list xs =>
    cases t with
    | key name => exact h
    | index i =>
      rw [Data.setChild, readKeyed_list xs, h]
      rfl
  | _ => cases t <;> cases hx

/-- A map with more than one key is refused for its keys. -/
theorem read_of_keys_eq {es es' : List (String × Data)} (hkeys : Keyed.keys es' = Keyed.keys es)
    (hmany : es.length ≠ 1) : read (.map es') = read (.map es) := by
  have hlength : es'.length = es.length := by
    simpa [Keyed.keys] using congrArg List.length hkeys
  have hread (l : List (String × Data)) (h : 2 ≤ l.length) :
      read (.map l) = bad (", ".intercalate (Keyed.keys l)) (.manyKeys l.length) := by
    cases l with
    | nil => simp at h
    | cons e l =>
      cases l with
      | nil => simp at h
      | cons e' rest => rfl
  rcases Nat.lt_or_ge es.length 2 with hfew | hmore
  · have hnil : es = [] := List.length_eq_zero_iff.mp (by omega)
    have hnil' : es' = [] := List.length_eq_zero_iff.mp (by omega)
    rw [hnil, hnil']
  · rw [hread es hmore, hread es' (by omega), hkeys, hlength]

/-- An entry that is refused is refused whatever stands inside of what it has under its key. -/
theorem read_put_of_refused {entry : Data} (hordered : entry.Ordered) {cause : Cause}
    (h : read entry = .error cause) {t t' : Step} {q : Route} {x : Data}
    (hx : Data.at? (t :: t' :: q) entry = some x) (y : Data) :
    read (Data.put (t :: t' :: q) y entry) = .error cause := by
  obtain ⟨payload, hpayload, hrest⟩ := Option.bind_eq_some_iff.mp hx
  obtain ⟨child, hchild, -⟩ := Option.bind_eq_some_iff.mp hrest
  rw [Data.put, hpayload, Option.getD_some, Data.put]
  generalize Data.put q y ((Data.child? t' payload).getD .null) = z
  cases entry with
  | map es =>
    cases t with
    | index i => cases hpayload
    | key name =>
      by_cases hmany : es.length = 1
      · obtain ⟨⟨key, payload'⟩, rfl⟩ := List.length_eq_one_iff.mp hmany
        obtain ⟨rfl, rfl⟩ : key = name ∧ payload' = payload := by
          simpa [Data.child?, Keyed.get?] using hpayload
        rw [Data.setChild, Keyed.insert, if_pos rfl]
        exact readKeyed_setChild (hordered.child? hpayload).isOrdered h hchild z
      · have hkeys := (hordered.isOrdered es rfl).keys_insert hpayload (Data.setChild t' z payload)
        rw [Data.setChild, read_of_keys_eq hkeys hmany, h]
  | list xs => cases t <;> exact h
  | _ => cases t <;> cases hpayload

end Entry

/-! ## §2 Places of entries -/

namespace Position

variable {context : Context} {document : Path} {s : Position} {x y : Data}

/-- Whether an action is made from data at a position: as an item of a list of actions, or as a
    field that has one action. -/
def ReadsEntry (context : Context) : Position → Prop
  | entry => True
  | field d target => ∃ name k slots, d.factory? = some name ∧
      context.factories.get? name = some .action ∧ target = .record (some (.action k)) slots
  | _ => False

/-- Entries that are read alike are walked alike. -/
theorem ReadsEntry.walk_eq (hs : s.ReadsEntry context) (h : Entry.read y = Entry.read x) (n : Nat) :
    s.walk context document n y = s.walk context document n x := by
  have haction (d : Deeper) : Binding.action d document y = Binding.action d document x := by
    rw [Binding.action, Binding.action, h]
  have hlevel (n : Nat) : (Deeper.level context n).action document y =
      (Deeper.level context n).action document x := by
    cases n with
    | zero => rfl
    | succ n => exact haction _
  cases s with
  | entry => exact hlevel n
  | field d target =>
    obtain ⟨name, k, slots, hd, hf, rfl⟩ := hs
    rw [field_walk_factory hd hf, field_walk_factory hd hf]
    cases n with
    | zero => rfl
    | succ n => exact hlevel n
  | value target => exact hs.elim
  | payload key => exact hs.elim

/-- Any entry but null stands for itself where an action is made. -/
theorem ReadsEntry.takes (hs : s.ReadsEntry context) (hx : x ≠ .null) : s.Takes x := by
  refine ⟨hx, ?_⟩
  rintro ⟨variant, slots, rfl⟩
  exact hs.elim

/-- The routes to entries in data at a position: to what an action is made from, and to what lies in
    the payload of an entry that is refused. -/
inductive HoldsEntry (context : Context) (s : Position) (x : Data) : Route → Prop
  | made {r : Route} {s' : Position} (h : Leads context (fun _ => True) s x r s')
      (hs : s'.ReadsEntry context) : HoldsEntry context s x r
  | refused {r : Route} {s' : Position} (h : Leads context (fun _ => True) s x r s')
      (hs : s'.ReadsEntry context) {entry : Data} {cause : Cause}
      (hentry : Data.at? r x = some entry) (hcause : Entry.read entry = .error cause) (t t' : Step)
      (q : Route) : HoldsEntry context s x (r ++ t :: t' :: q)

/-- Another spelling of an entry changes no walk of the data around it. -/
theorem HoldsEntry.walk_put (document : Path) {r : Route} (h : s.HoldsEntry context x r)
    (hs : s.IsTidy) (hx : x.Ordered) {entry entry' : Data} (hentry : Data.at? r x = some entry)
    (hrespells : Entry.Respells entry entry') (n : Nat) :
    s.walk context document n (Data.put r entry' x) = s.walk context document n x := by
  -- data for an action that is read as another one, where the other one stands
  have hmade {r : Route} {s' : Position} (hlead : Leads context (fun _ => True) s x r s')
      (hs' : s'.ReadsEntry context) {y y' : Data} (hy : Data.at? r x = some y) (hne : y ≠ .null)
      (hne' : y' ≠ .null) (hread : Entry.read y' = Entry.read y) :
      s.walk context document n (Data.put r y' x) = s.walk context document n x := by
    have hsame := hlead.walk_put_congr document hs hx (hs'.takes hne')
      (hs'.takes hne) (hs'.walk_eq hread) n
    rwa [hx.put_at? hy] at hsame
  cases h with
  | made hlead hs' =>
    exact hmade hlead hs' hentry (by cases hrespells <;> simp) (by cases hrespells <;> simp)
      hrespells.read_eq
  | @refused r s' hlead hs' refused cause hrefused hcause t t' q =>
    rw [Data.at?_append, hrefused, Option.bind_some] at hentry
    have hscalar : refused.isScalar = false := by
      obtain ⟨y, hy, -⟩ := Option.bind_eq_some_iff.mp hentry
      exact Data.isScalar_of_child? hy
    have hput : (Data.put (t :: t' :: q) entry' refused).isScalar = false := by
      rwa [Data.put, Data.isScalar_setChild]
    have hnonnull {y : Data} (hy : y.isScalar = false) : y ≠ .null := by
      rintro rfl
      cases hy
    rw [Data.put_append hrefused]
    apply hmade hlead hs' hrefused (hnonnull hscalar) (hnonnull hput)
    rw [Entry.read_put_of_refused (hx.at? hrefused) hcause hentry, hcause]

/-- A value as a whole is no entry. -/
theorem HoldsEntry.ne_nil {target : Value} {r : Route}
    (h : (value target).HoldsEntry context x r) : r ≠ [] := by
  rintro rfl
  generalize hr : ([] : Route) = r at h
  cases h with
  | made hlead hs =>
    subst hr
    cases hlead
    exact hs.elim
  | refused => simp at hr

end Position

/-! ## §3 Walks and documents -/

open Position Rig

/-- Another spelling of an entry, wherever it stands, changes nothing: neither what a walk of the
    data around it gives, be it a value or an error with its location, nor where the walk ends; nor
    what documents and overwrites stand for. -/
theorem respelled_alike {context : Context} {data : Data} (hdata : data.Ordered) {r : Route}
    {x y : Data} (hx : Data.at? r data = some x) (h : Entry.Respells x y) :
    (∀ (w : Walker) (target : Value), w.context = context → (value target).IsTidy →
      (value target).HoldsEntry context data r →
        w.assign (Data.put r y data) target = w.assign data target) ∧
    ∀ d : Document, d.data = data → whole.HoldsEntry context data r →
      ∀ (before after : List Document) (overwrites : List (String × String)),
        resolve context (before ++ d.put r y :: after) overwrites =
          resolve context (before ++ d :: after) overwrites := by
  refine ⟨?_, ?_⟩
  · rintro w target rfl ht hentry
    have hassign : (Deeper.level w.context (maxDepth - w.depth)).assign w.document
        (Data.put r y data) target = _ :=
      hentry.walk_put w.document ht hdata hx h (maxDepth - w.depth)
    rw [Walker.assign, Walker.run, hassign]
    rfl
  · rintro d rfl hentry before after overwrites
    apply resolve_congr
    rw [bindDocument_eq, bindDocument_eq, Document.path_put,
      Document.data_put fun hr => absurd hr hentry.ne_nil,
      hentry.walk_put d.path whole_isTidy hdata hx h]

/-- A text in a group, and the key that it is short for. -/
theorem respelled_alike_group :
    let group (entry : Data) := acting "sequential" [("actions", .list [entry])]
    resolve withoutFiles [group (.map [("bench/web", .null)])] [] =
      resolve withoutFiles [group (.text "bench/web")] [] := by
  intro group
  let d := group (.text "bench/web")
  have hordered : d.data.Ordered := Data.ordered_of_isSorted _ (by decide +kernel)
  have hmembers : Binding.directives ⟨"SequentialAction", "actions", "actions,factory=actions"⟩ =
      .ok ⟨[("factory", "actions"), ("name", "actions")]⟩ := rfl
  have hplan : Entry.readKeyed "sequential" (.map [("actions", .list [.text "bench/web"])]) =
      .ok ⟨.sequential, [("actions", .list [.text "bench/web"])], none, none⟩ := rfl
  have hlead := leads_acting "sequential" [("actions", .list [.text "bench/web"])]
    (.step (.payload hplan (.slot (List.mem_of_getElem? (i := 2) rfl) hmembers)) trivial rfl
      (.step (t := .index 0) (.action rfl rfl) trivial rfl (.here _ _)))
  have hrespells : Entry.Respells (.text "bench/web") (.map [("bench/web", .null)]) :=
    @Entry.Respells.text "bench" "web" (.inl rfl) (by decide) (by decide)
  exact (respelled_alike hordered rfl hrespells).2 d rfl (.made hlead trivial) [] [] []

end Testbed
