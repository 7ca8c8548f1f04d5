import Testbed.Proofs.Binding.Routing
import Testbed.Proofs.Overwrite.Listing

/-!
# Editing a document and overwriting its configuration

Where the data of a document ends in a text or an integer that is bound as such, the document with
another text or integer there stands for the configuration that the document stands for,
overwritten at the same route (`resolve_put`). The route leads through fields, keys and items; the
keys are written in the route as they are in the document.

A bare text that stands for a record is no such end: the configuration holds the record at its
route, which cannot be overwritten (`resolve_put_bareText`).
-/

namespace Testbed

/-! ## §1 Scalars -/

/-- What data is bound to in place of a text or of an integer, without further checks. -/
inductive BoundTo : Value → Data → Value → Prop
  | text (old s : String) : BoundTo (.text old) (.text s) (.text s)
  | int {w : IntWidth} (old : Int) {n : Int} (hn : w.holds n = true) :
      BoundTo (.int w old) (.int n) (.int w n)

theorem BoundTo.isSettable {target v : Value} {x : Data} (h : BoundTo target x v) :
    target.isSettable = true ∧ v.isSettable = true := by
  cases h <;> exact ⟨rfl, rfl⟩

/-- What is bound in place of a scalar is bound in place of any that it was bound in place of. -/
theorem BoundTo.again {target v v' : Value} {x x' : Data} (h : BoundTo target x v)
    (h' : BoundTo target x' v') : BoundTo v x' v' := by
  cases h <;> cases h'
  · exact .text _ _
  · next hn => exact .int _ hn

theorem BoundTo.hasShape {target v : Value} {x : Data} (h : BoundTo target x v) {e : Shape}
    (htarget : Value.HasShape target e) : Value.HasShape v e := by
  cases h with
  | text old s =>
    cases htarget
    exact .text s
  | int old hn =>
    cases htarget
    exact .int hn

/-- The text of a scalar is stored as what the scalar is bound to. -/
theorem BoundTo.store? {target v : Value} {x : Data} (h : BoundTo target x v) {e : Shape}
    (he : e.isTidy = true) (htarget : Value.HasShape target e) :
    Value.store? (Data.leafText x) target = some v := by
  cases h with
  | text old s => rfl
  | @int w old n hn =>
    cases htarget
    have hlisted := Value.store?_leafText (.int hn) he rfl
    rwa [Value.store?_int] at hlisted ⊢

namespace Binding

variable {context : Context} {deeper : Deeper} {document : Path} {d : Directives}
  {target v v' : Value} {x x' : Data}

theorem scalar_of_boundTo (h : BoundTo target x v) : scalar x target = .ok v := by
  cases h with
  | text => rfl
  | int old hn => simp [scalar_int, Value.ofInt?, hn]

/-- Only what is bound to one takes the place of a text or an integer. -/
theorem boundTo_of_assign (h : BoundTo target x v) (hx' : x' ≠ .null)
    (hok : (assign context deeper document x' target).outcome = .ok v') : BoundTo target x' v' := by
  cases h with
  | text old s =>
    cases x' with
    | null => exact absurd rfl hx'
    | text s' => cases hok; exact .text _ _
    | _ => cases hok
  | @int w old n hn =>
    cases x' with
    | null => exact absurd rfl hx'
    | int m =>
      by_cases hm : w.holds m
      · have hv : v' = .int w m := by
          simpa [assign, scalar_int, Value.ofInt?, hm] using hok.symm
        exact hv ▸ .int old hm
      · simp [assign, scalar_int, Value.ofInt?, hm] at hok
    | _ => cases hok

theorem assign_of_boundTo (h : BoundTo target x v) :
    (assign context deeper document x target).outcome = .ok v := by
  have hscalar := scalar_of_boundTo h
  cases h <;> simpa [assign] using hscalar

/-- No factory fills a scalar. -/
theorem fill_ne_ok (htarget : target.isSettable = true) (f : Factory) :
    (fill deeper f document x target).outcome ≠ .ok v := by
  have hname (family : Family) (member : Platform → Variant) (unknown : String → Cause) :
      (byName deeper f family member unknown document x target).outcome ≠ .ok v := by
    unfold byName
    cases x <;> cases target <;> simp_all [Value.isSettable]
  unfold fill
  cases f with
  | actions => cases x <;> cases target <;> simp_all [Value.isSettable]
  | action => cases target <;> simp_all [Value.isSettable]
  | sandboxes => exact hname _ _ _
  | environments => exact hname _ _ _

/-- A pattern loads nothing into a leaf. -/
theorem loaded_ne_ok (htarget : target.isSettable = true) (pattern : String) :
    (loaded context deeper document pattern target).outcome ≠ .ok v := by
  have hrest : ∃ cause, loaded context deeper document pattern target = (do
      let _ ← Walk.lift (Document.loadMatching context.files document.directory pattern)
      Walk.fail cause) := by
    cases target <;> simp [Value.isSettable] at htarget <;> exact ⟨_, rfl⟩
  obtain ⟨cause, hrest⟩ := hrest
  rw [hrest, Walk.outcome_bind fun _ => .fail cause]
  cases (Walk.lift (Document.loadMatching context.files document.directory pattern)).outcome <;>
    simp [bind, Except.bind]

theorem field_eq_value (hfactory : d.factory? = none) (htarget : target.isSettable = true) :
    field context deeper document d x target = value context deeper document d x target := by
  unfold field
  rw [hfactory]
  cases target <;> simp [Value.isSettable] at htarget <;>
    cases d.string? <;> cases x <;> rfl

/-- A field that is bound to a scalar has no factory, and no pattern in it. -/
theorem plain_of_field {n : Nat} (htarget : target.isSettable = true)
    (hok : (field context (Deeper.level context n) document d x target).outcome = .ok v) :
    d.factory? = none ∧ ∀ s, x = .text s → d.isLoadable = false := by
  have hfactory : d.factory? = none := by
    cases hd : d.factory? with
    | none => rfl
    | some name =>
      exfalso
      unfold field at hok
      rw [hd] at hok
      cases hf : context.factories.get? name with
      | none => simp [hf] at hok
      | some f =>
        simp only [hf] at hok
        cases n with
        | zero => cases hok
        | succ n => exact fill_ne_ok htarget f hok
  refine ⟨hfactory, ?_⟩
  rintro s rfl
  rw [field_eq_value hfactory htarget, value] at hok
  by_contra hne
  have hload : d.isLoadable = true := by simpa using hne
  simp only [hload, if_true] at hok
  exact loaded_ne_ok htarget s hok

/-- On any level, data that a leaf takes is a scalar that is bound to it. -/
theorem assign_level_of_boundTo {n : Nat} (h : BoundTo target x v) (hx' : x' ≠ .null)
    (hok : ((Deeper.level context n).assign document x' target).outcome = .ok v') :
    BoundTo target x' v' ∧ ((Deeper.level context n).assign document x target).outcome = .ok v := by
  cases n with
  | zero => cases hok
  | succ n => exact ⟨boundTo_of_assign h hx' hok, assign_of_boundTo h⟩

/-- Without directives that restrict texts, a field takes any text or integer where it takes one. -/
theorem field_of_boundTo {n : Nat} (hallowed : d.allowed? = none) (hpath : d.isPath = false)
    (h : BoundTo target x v) (hx' : x' ≠ .null)
    (hok : (field context (Deeper.level context n) document d x' target).outcome = .ok v') :
    BoundTo target x' v' ∧
      (field context (Deeper.level context n) document d x target).outcome = .ok v := by
  obtain ⟨hfactory, hload⟩ := plain_of_field h.isSettable.1 hok
  rw [field_eq_value hfactory h.isSettable.1] at hok ⊢
  rw [value_outcome (Deeper.level_self n) hload] at hok
  simp only [checkValue, hallowed, hpath] at hok
  cases hkeys : d.keys? with
  | some keys =>
    -- only a map has keys, and a map is bound to no scalar
    rw [hkeys] at hok
    cases x' with
    | map es =>
      cases hany : keys.any (Keyed.has · es) with
      | true =>
        simp only [hany] at hok
        cases (assign_level_of_boundTo h hx' hok).1
      | false =>
        simp only [hany] at hok
        cases hok
    | _ => cases hok
  | none =>
    rw [hkeys] at hok
    obtain ⟨hbound, hx⟩ := assign_level_of_boundTo h hx' hok
    refine ⟨hbound, ?_⟩
    have hload' : ∀ s, x = .text s → d.isLoadable = false := by
      rintro s rfl
      cases h
      cases hbound
      exact hload _ rfl
    rw [value_outcome (Deeper.level_self n) hload']
    simp only [checkValue, hallowed, hpath, hkeys]
    exact hx

end Binding

namespace Position

variable {context : Context} {document : Path} {s s' : Position} {target v v' : Value} {x x' : Data}
  {r : Route}

/-- Whether the tag at a position, if there is one, neither lists the texts allowed nor asks for a
    path. -/
def IsFree : Position → Prop
  | field d _ => d.allowed? = none ∧ d.isPath = false
  | _ => True

/-- Scalars stand for themselves where leaves are bound. -/
theorem takes_of_boundTo (hs : s.target? = some target) (h : BoundTo target x v)
    (hx' : x' ≠ .null) : s.Takes x' := by
  refine ⟨hx', ?_⟩
  rintro ⟨variant, slots, rfl⟩
  cases hs
  cases h

/-- At a position with a leaf, data comes to what it is bound to as a scalar. -/
theorem outcome_of_boundTo {n : Nat} (hs : s.target? = some target) (hfree : s.IsFree)
    (h : BoundTo target x v) (hx' : x' ≠ .null)
    (hok : s.outcome context document n x' = .ok v') :
    BoundTo target x' v' ∧ s.outcome context document n x = .ok v := by
  cases s with
  | value w =>
    cases hs
    exact Binding.assign_level_of_boundTo h hx' hok
  | field d w =>
    cases hs
    exact Binding.field_of_boundTo hfree.1 hfree.2 h hx' hok
  | _ => cases hs

/-! ## §2 Segments -/

/-- A shape whose new value is a list is that of a list. -/
theorem isList_of_zero {e e' : Shape} {items : List Value} (h : e.zero = .list e' items) :
    e.isList = true := by
  cases e with
  | list _ => rfl
  | oneOf f => cases f <;> cases h
  | _ => cases h

/-- Between positions with values an index leads into a list, its items bound by their shape. -/
theorem Enters.index {t : Step} {i : Nat} (h : Enters context s x t s') (ht : t = .index i)
    (hs : s.target?.isSome) (hs' : s'.target?.isSome) :
    ∃ e old, s.target? = some (.list e old) ∧ s' = value e.zero := by
  induction h with
  | item => exact ⟨_, _, rfl, rfl⟩
  | plain hd h ih => exact ih ht rfl hs'
  | action => simp [target?] at hs'
  | single hd hf h ih =>
    cases h
    cases ht
  | payload => simp [target?] at hs
  | group => simp [target?] at hs
  | _ => cases ht

/-- A route between positions with values is made of segments, behind an index if it starts in a
    list. -/
theorem Leads.exists_segments {within : Position → Prop} (h : Leads context within s x r s')
    (hwithin : ∀ s, within s → s.target?.isSome) (hs : s.target?.isSome) (htidy : s.IsTidy)
    (hnames : ∀ name, .key name ∈ r → Step.IsName name)
    (hindices : ∀ i : Nat, .index i ∈ r → (i : Int) ≤ Segment.indexMax) :
    ∃ (index : Option Nat) (segments : List Segment),
      r = (index.map Step.index).toList ++ Segment.route segments ∧
        (index ≠ none → ∃ e old, s.target? = some (.list e old)) ∧
        (∀ i ∈ index, (i : Int) ≤ Segment.indexMax) ∧
        ∀ segment ∈ segments, segment.IsWritable := by
  induction h with
  | here => exact ⟨none, [], rfl, by simp, by simp, by simp⟩
  | @step s s' s'' x y t r h hin hy hrest ih =>
    obtain ⟨index, segments, rfl, hlist, hindex, hsegments⟩ := ih (hwithin _ hin) (h.isTidy htidy)
      (fun name hname => hnames name (List.mem_cons_of_mem _ hname))
      (fun i hi => hindices i (List.mem_cons_of_mem _ hi))
    cases t with
    | key name =>
      -- the name and the index behind it, if there is one, are a segment
      refine ⟨none, ⟨name, index⟩ :: segments, rfl, by simp, by simp, ?_⟩
      exact List.forall_mem_cons.mpr ⟨⟨hnames name List.mem_cons_self, hindex⟩, hsegments⟩
    | index i =>
      obtain ⟨e, old, htarget, rfl⟩ := h.index rfl hs (hwithin _ hin)
      -- the items are no lists, so no second index follows
      obtain ⟨shape, hshape, hlistShape⟩ := htidy _ htarget
      have hnone : index = none := by
        by_contra hne
        obtain ⟨e', items, hzero⟩ := hlist hne
        cases hlistShape
        simp [Shape.isTidy, isList_of_zero (Option.some.inj hzero)] at hshape
      subst hnone
      refine ⟨some i, segments, rfl, fun _ => ⟨e, old, htarget⟩, ?_, hsegments⟩
      rintro j ⟨rfl⟩
      exact hindices i List.mem_cons_self

end Position

namespace Rig

open Position

variable {context : Context}

/-! ## §3 Edited documents -/

/-- One document alone stands for what it is bound to, overwritten. -/
theorem resolve_alone_toOption (d : Document) (overwrites : List (String × String)) :
    (resolve context [d] overwrites).toOption =
      (bindDocument context d).toOption.bind fun c =>
        Value.overwrittenAll? overwrites (some c) := by
  rw [resolve_toOption, List.mapM_cons, toOption_bind]
  cases (bindDocument context d).toOption with
  | none => rfl
  | some c => rfl

/-- One document without overwrites is resolved to what it is bound to. -/
theorem resolve_alone (d : Document) :
    (resolve context [d] []).toOption = (bindDocument context d).toOption := by
  rw [resolve_alone_toOption]
  exact Option.bind_fun_some _

/-- One document with an overwrite is resolved to what it is bound to, overwritten. -/
theorem resolve_alone_overwritten (d : Document) (p : String × String) :
    (resolve context [d] [p]).toOption =
      (bindDocument context d).toOption.bind (Value.overwritten? p) :=
  resolve_alone_toOption d [p]

/-- A route that leads to a scalar of a configuration is read back from its text, and what is stored
    there is put at the route. -/
theorem overwritten?_text {within : Position → Prop} (hwithin : ∀ s, within s → s.target?.isSome)
    {x : Data} {r : Route} {s : Position} (hlead : Leads context within whole x r s) (hne : r ≠ [])
    (hnames : ∀ name, .key name ∈ r → Step.IsName name)
    (hindices : ∀ i : Nat, .index i ∈ r → (i : Int) ≤ Segment.indexMax) {c w v : Value}
    (hleaf : Value.leaf? r c = some w) {raw : String} (hstore : Value.store? raw w = some v) :
    Value.overwritten? (Route.text r, raw) c = some (Value.put r v c) := by
  obtain ⟨index, segments, rfl, hlist, -, hsegments⟩ :=
    hlead.exists_segments hwithin rfl whole_isTidy hnames hindices
  obtain rfl : index = none := by
    -- a configuration is no list
    by_contra hindex
    obtain ⟨e, old, hroot⟩ := hlist hindex
    cases hroot
  rw [Option.map_none, Option.toList_none, List.nil_append] at *
  have hread := Segment.readRoute_text (fun h => hne (by rw [h]; rfl)) hsegments
  rw [Value.overwritten?, Value.overwrite_toOption, hread]
  exact Value.setLeaf?_eq_some_iff.mpr ⟨w, v, hleaf, hstore, rfl⟩

/-- Let a document alone stand for a configuration, and let a route lead in it to something that is
    bound to a text, or to an integer, by a field or an element whose tag neither lists the texts
    allowed nor asks for a path. Then the document with any other text there, or any integer of the
    width, stands for the same configuration as the document overwritten at the route with the text
    of what was put there; and it does stand for one. -/
theorem resolve_put (hstrict : context.strict = false) {d : Document} (hd : d.data.Ordered)
    {c : Value} (hc : resolve context [d] [] = .ok c) {r : Route} {s : Position}
    (hlead : Leads context (·.target?.isSome) whole d.data r s) {target : Value}
    (hs : s.target? = some target) (hfree : s.IsFree) {x : Data}
    (hx : Data.at? r d.data = some x) (hnull : x ≠ .null)
    (hnames : ∀ name, .key name ∈ r → Step.IsName name)
    (hindices : ∀ i : Nat, .index i ∈ r → (i : Int) ≤ Segment.indexMax) {y : Data} {v : Value}
    (hy : BoundTo target y v) :
    ∃ c', resolve context [d.put r y] [] = .ok c' ∧
      resolve context [d] [(Route.text r, Data.leafText y)] = .ok c' := by
  obtain ⟨n, f, hput, hsurrounds⟩ := bindDocument_put hstrict hd hlead
  have hf : Value.Surrounds r f := hsurrounds fun _ h => h
  have hne : r ≠ [] := by
    -- the whole document is no scalar
    rintro rfl
    cases hlead
    cases hs
    cases hy
  have hbind : (bindDocument context d).toOption = some c := by
    rw [← resolve_alone, hc]
    rfl
  have hwhole : f (s.outcome context d.path n x) = .ok c := by
    rw [← Document.put_at? hd hx, hput x (takes_of_boundTo hs hy hnull) fun h => absurd h hne]
      at hbind
    exact ok_of_toOption_eq_some hbind
  -- what stood at the end of the route was bound to a scalar, and so is what is put there
  obtain ⟨w, hw⟩ : ∃ w, s.outcome context d.path n x = .ok w := by
    cases hw : s.outcome context d.path n x with
    | error cause => exact absurd (hw ▸ hwhole) (hf.strict cause c)
    | ok w => exact ⟨w, rfl⟩
  rw [hw] at hwhole
  obtain ⟨hbound, hnew⟩ := outcome_of_boundTo hs hfree hy hnull hw
  have hynull : y ≠ .null := by cases hy <;> simp
  refine ⟨Value.put r v c, ok_of_toOption_eq_some ?_, ok_of_toOption_eq_some ?_⟩
  · rw [resolve_alone, hput y (takes_of_boundTo hs hy hynull) fun h => absurd h hne, hnew,
      hf.put hwhole v]
    rfl
  · obtain ⟨e, he, hshape⟩ := hlead.isTidy whole_isTidy target hs
    have hleaf := Value.leaf?_of_at? (hf.place hwhole) hbound.isSettable.2
    have hstore := (hbound.again hy).store? he (hbound.hasShape hshape)
    rw [resolve_alone_overwritten, hbind]
    exact overwritten?_text (fun _ h => h) hlead hne hnames hindices hleaf hstore

/-- A document with a server on a port. -/
def onPort (port : Int) : Document :=
  ⟨"main.yaml", [("servers", .list [.map [("name", .text "web"), ("port", .int port)]])]⟩

/-- A port changed in the document, and overwritten. -/
theorem resolve_put_port :
    let place : Route := [.key "servers", .index 0, .key "port"]
    ∃ c', resolve withoutFiles [(onPort 80).put place (.int 8080)] [] = .ok c' ∧
      resolve withoutFiles [onPort 80] [("servers[0].port", "8080")] = .ok c' := by
  have hordered : (onPort 80).data.Ordered := Data.ordered_of_isSorted _ (by decide +kernel)
  have hsome : (resolve withoutFiles [onPort 80] []).toOption.isSome = true := by decide +kernel
  obtain ⟨c, hc⟩ := Option.isSome_iff_exists.mp hsome
  have hservers : Binding.directives ⟨"Config", "servers", "servers,loadable"⟩ =
      .ok ⟨[("loadable", "true"), ("name", "servers")]⟩ := rfl
  have hport : Binding.directives ⟨"Server", "port", "port,default=80"⟩ =
      .ok ⟨[("default", "80"), ("name", "port")]⟩ := rfl
  have hlead : Leads withoutFiles (·.target?.isSome) whole (onPort 80).data
      [.key "servers", .index 0, .key "port"]
      (.field ⟨[("default", "80"), ("name", "port")]⟩ (.int .u16 0)) :=
    .step (.slot (List.mem_of_getElem? (i := 4) rfl) hservers) rfl rfl
      (.step (.plain rfl .item) rfl rfl
        (.step (.slot (List.mem_of_getElem? (i := 2) rfl) hport) rfl rfl (.here _ _)))
  exact resolve_put rfl hordered (ok_of_toOption_eq_some hc) hlead rfl ⟨rfl, rfl⟩ rfl (by simp)
    (by simp; decide) (by simp; decide) (.int 0 rfl)

/-- A document with a hook of a sandbox. -/
def hooked (hook : Data) : Document :=
  ⟨"main.yaml", [("sandboxes", .map [("docker", .map [("hooks", .map [("start", hook)])])])]⟩

/-- A bare text that stands for a hook can be changed in the document, and the command of the hook
    changes; but the hook cannot be overwritten. -/
theorem resolve_put_bareText :
    let place : Route := [.key "sandboxes", .key "docker", .key "hooks", .key "start"]
    let command (c : Value) := (Value.at? (place ++ [.key "command"]) c).bind Value.text?
    (hooked (.text "run")).put place (.text "stop") = hooked (.text "stop") ∧
      Route.text place = "sandboxes.docker.hooks.start" ∧
      (resolve withoutFiles [hooked (.text "run")] []).toOption.bind command = some "run" ∧
      (resolve withoutFiles [hooked (.text "stop")] []).toOption.bind command = some "stop" ∧
      (resolve withoutFiles [hooked (.text "run")]
        [("sandboxes.docker.hooks.start", "stop")]).toOption.isNone = true := by
  refine ⟨rfl, rfl, ?_, ?_, ?_⟩ <;> decide +kernel

end Rig

end Testbed
