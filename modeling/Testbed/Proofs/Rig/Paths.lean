import Testbed.Proofs.Rig.Located
import Testbed.Proofs.Rig.Routes
import Testbed.Proofs.Rig.Strict

/-!
# Paths in documents

A path is read from the directory of the document that it is written in, be it the one that is bound
or one that is loaded on the way, and whatever else is loaded before and after it. The text of the
path that it means stands in the configuration where the field is, and there is no configuration if
nothing exists under one of them (`Walker.config_paths`).
-/

namespace Testbed

open Binding Walk

/-! ## §1 What a path means -/

/-- A path is read from the directory of its document, unless it is absolute. -/
theorem resolvePath_eq (document raw : Path) :
    resolvePath document raw =
      if Path.isAbsolute raw then raw else document.directory.join raw := by
  split
  · next habsolute => rw [resolvePath, Path.join, if_pos habsolute]
  · rfl

/-- A text under a field stands in the document of the place. -/
theorem Place.Reaches.text_within {files : FileSystem} {start document : Document} {d : Directives}
    {s : Shape} {raw : String}
    (h : Reaches files start.place ⟨document, .field d s, .text raw⟩) :
    (Data.text raw).Within document.data := by
  have hstart : start.place.IsGenuine := ⟨Rig.config_spelled, .literal .self⟩
  exact (h.isGenuine hstart).2.2

namespace Walker

/-- The configuration of a document is what the walk of its place gives. -/
theorem gives_of_config {w : Walker} {start : Document} {target c : Value}
    (htarget : target.Built (.record Rig.config))
    (h : (w.config start.path start.data target).1 = .ok c) :
    Place.Gives w.context start.place c := by
  cases htarget with
  | @record _ slots hslots =>
    have hroot : (w.config start.path start.data (.record none slots)).1.mapError Error.root =
        ((Deeper.level w.context (maxDepth + 1)).assign start.path start.data
          (.record none slots)).outcome :=
      Walker.run_outcome _ _
    rw [h] at hroot
    exact ⟨Rig.config_sound, Rig.config_tidy, maxDepth + 1, _, .built (.record hslots), hroot.symm⟩

/-- There is a route to every path that stands in data in order. -/
theorem exists_route_of_lands {w : Walker} {start document : Document} {d : Directives} {s : Shape}
    {raw : String} (hstart : start.data.Ordered)
    {r : Option Route}
    (h : Place.Lands w.context.files start.place r ⟨document, .field d s, .text raw⟩)
    (hpath : d.isPath = true) : ∃ q, r = some q := by
  obtain ⟨-, hroute | ⟨-, -, hword⟩⟩ := h.exists_route ⟨Rig.config_listed, hstart⟩
  · exact Option.isSome_iff_exists.mp hroute
  · cases hword.symm.trans hpath

/-- A path that stands in a document, the one that is bound or one that is loaded on the way, is
    read from the directory of that document, unless it is absolute. It has a place in what is
    bound, where the configuration has the text of what it means, and there is no configuration if
    that does not exist. A place may be lost only if a key comes again in the document that is
    bound. -/
theorem config_paths (w : Walker) (hfactories : w.context.factories = .standard)
    {start document : Document} {target : Value} (htarget : target.Built (.record Rig.config))
    {d : Directives} {s : Shape} {raw : String}
    (hreach :
      Place.Reaches w.context.files start.place ⟨document, .field d s, .text raw⟩)
    (hpath : d.isPath = true) :
    let meant : Path := if Path.isAbsolute raw then raw else document.path.directory.join raw
    let result := (w.config start.path start.data target).1
    let lands (q : Route) :=
      Place.Lands w.context.files start.place (some q) ⟨document, .field d s, .text raw⟩
    (document = start ∨ ∃ p s, Place.Reaches w.context.files start.place p ∧
      p.Loads w.context.files document s) ∧
    (Data.text raw).Within document.data ∧
    (start.data.Ordered → ∃ q, lands q) ∧
    (∀ c, result = .ok c → ∀ q, lands q → Value.at? q c = some (.text meant)) ∧
    (w.context.files.isPresent meant = false → ∃ e, result = .error e) := by
  intro meant result lands
  -- wherever the field lands, what is bound there is the path that was meant, and it is there
  have hgives {r : Option Route} (hr : Place.Lands w.context.files start.place r
      ⟨document, .field d s, .text raw⟩) {c : Value} (hc : result = .ok c) :
      Value.Stands r (.text meant) c ∧ w.context.files.isPresent meant = true := by
    obtain ⟨v, hv, hstands⟩ := hr.gives hfactories (gives_of_config htarget hc)
    obtain ⟨rfl, hpresent⟩ := hv.path hpath
    rw [resolvePath_eq] at hstands hpresent
    exact ⟨hstands, hpresent⟩
  obtain ⟨r, hr⟩ := hreach.lands Rig.config_sound
  refine ⟨hreach.document, hreach.text_within, ?_, ?_, ?_⟩
  · intro hordered
    obtain ⟨q, rfl⟩ := exists_route_of_lands hordered hr hpath
    exact ⟨q, hr⟩
  · intro c hc q hq
    exact (hgives hq hc).1 q rfl
  · intro habsent
    cases hresult : result with
    | error e => exact ⟨e, rfl⟩
    | ok c => cases (hgives hr hresult).2.symm.trans habsent

/-! ## §2 Files around a rig -/

/-- A document with the configuration of a cluster beside it, and servers in a directory of their
    own. -/
def scattered : Document :=
  ⟨"/rig/main.yaml",
    [("sandboxes", .map [("kubernetes", .map [("auth", .map [("kubeconfig", .text "kube")])])]),
      ("servers", .text "servers/*.json")]⟩

/-- A server with a file beside it. -/
def scatteredServer : Document :=
  ⟨"/rig/servers/web.json", [("configs", .map [("main", .map [("file", .text "web.conf")])])]⟩

/-- The server and the files that the two documents speak of. -/
def scatteredFiles : StoredFiles :=
  let server := "\x7b\"configs\":\x7b\"main\":\x7b\"file\":\"web.conf\"\x7d\x7d\x7d"
  ((StoredFiles.empty.insert "/rig/servers/web.json" server.toUTF8.data.toList).insert
    "/rig/servers/web.conf" []).insert "/rig/kube" []

theorem loadMatching_scattered :
    Document.loadMatching scatteredFiles.fileSystem scattered.path.directory "servers/*.json" =
      .ok [scatteredServer] := by
  have hglob : scatteredFiles.fileSystem.glob
      (Path.join scattered.path.directory "servers/*.json") = .ok ["/rig/servers/web.json"] :=
    ok_of_toOption_eq_some (by decide +kernel)
  simp only [Document.loadMatching, hglob, Path.sorted, List.mergeSort_singleton]
  rfl

/-- The configuration of the cluster is found through a factory, whatever the files are. -/
theorem lands_kubeconfig (files : FileSystem) :
    Place.Lands files scattered.place
      (some [.key "sandboxes", .key "kubernetes", .key "auth", .key "kubeconfig"])
      ⟨scattered, .field ⟨[("name", "kubeconfig"), ("path", "true")]⟩ .text, .text "kube"⟩ := by
  let auth : Data := .map [("kubeconfig", .text "kube")]
  let members : Data := .map [("kubernetes", .map [("auth", auth)])]
  have hsandboxes : Place.Puts files scattered.place (some [.key "sandboxes"])
      ⟨scattered, .field ⟨[("factory", "sandboxes"), ("name", "sandboxes")]⟩
        (.map (.oneOf .sandbox)), members⟩ :=
    .slot (f := ⟨"Config", "sandboxes", "sandboxes,factory=sandboxes"⟩)
      (List.mem_of_getElem? (i := 3) rfl) (ok_of_toOption_eq_some (by decide +kernel)) rfl
  have hmember : Place.Lands files scattered.place (some [.key "sandboxes", .key "kubernetes"])
      ⟨scattered, .value (.record (Rig.sandbox .kubernetes)), .map [("auth", auth)]⟩ :=
    .step (.step (.step .here hsandboxes) (.fill (f := .sandboxes) rfl rfl))
      (@Place.Puts.member _ _ _ _ _ [] [] "kubernetes" _ _ rfl rfl)
  have hauth : Place.Lands files scattered.place
      (some [.key "sandboxes", .key "kubernetes", .key "auth"])
      ⟨scattered, .value (.record Rig.clusterAuth), auth⟩ :=
    .step
      (.step hmember (.slot (f := ⟨"KubernetesSandbox", "auth", "auth"⟩) (d := ⟨[("name", "auth")]⟩)
        (List.mem_of_getElem? (i := 0) rfl) (ok_of_toOption_eq_some (by decide +kernel)) rfl))
      (.plain rfl rfl (by simp))
  exact .step hauth (.slot (f := ⟨"KubernetesAuth", "kubeconfig", "kubeconfig,path"⟩)
    (List.mem_of_getElem? (i := 0) rfl) (ok_of_toOption_eq_some (by decide +kernel)) rfl)

/-- The file of the server is found in the document that is loaded. -/
theorem lands_file :
    Place.Lands scatteredFiles.fileSystem scattered.place
      (some [.key "servers", .index 0, .key "configs", .key "main", .key "file"])
      ⟨scatteredServer, .field ⟨[("name", "file"), ("path", "true")]⟩ .text, .text "web.conf"⟩ := by
  let main : Data := .map [("file", .text "web.conf")]
  have hservers : Place.Puts scatteredFiles.fileSystem scattered.place (some [.key "servers"])
      ⟨scattered, .field ⟨[("loadable", "true"), ("name", "servers")]⟩ (.list (.record Rig.server)),
        .text "servers/*.json"⟩ :=
    .slot (f := ⟨"Config", "servers", "servers,loadable"⟩) (List.mem_of_getElem? (i := 4) rfl)
      (ok_of_toOption_eq_some (by decide +kernel)) rfl
  have hserver : Place.Lands scatteredFiles.fileSystem scattered.place
      (some [.key "servers", .index 0])
      ⟨scatteredServer, .value (.record Rig.server), scatteredServer.data⟩ :=
    .step (.step .here hservers) (.loadItem rfl rfl loadMatching_scattered rfl)
  have hconfigs : Place.Lands scatteredFiles.fileSystem scattered.place
      (some [.key "servers", .index 0, .key "configs"])
      ⟨scatteredServer, .value (.map (.record Rig.serverConfig)), .map [("main", main)]⟩ :=
    .step
      (.step hserver (.slot (f := ⟨"Server", "configs", "configs"⟩) (d := ⟨[("name", "configs")]⟩)
        (List.mem_of_getElem? (i := 3) rfl) (ok_of_toOption_eq_some (by decide +kernel)) rfl))
      (.plain rfl rfl (by simp))
  have hmain : Place.Lands scatteredFiles.fileSystem scattered.place
      (some [.key "servers", .index 0, .key "configs", .key "main"])
      ⟨scatteredServer, .value (.record Rig.serverConfig), main⟩ :=
    .step hconfigs (@Place.Puts.entry _ _ _ [] [] "main" main)
  exact .step hmain (.slot (f := ⟨"ServerConfig", "file", "file,path"⟩)
    (List.mem_of_getElem? (i := 0) rfl) (ok_of_toOption_eq_some (by decide +kernel)) rfl)

/-- Each of the files is found beside its own document, and without files there is no
    configuration. -/
theorem config_paths_scattered :
    let walker (files : StoredFiles) := Walker.fresh ⟨files.fileSystem, .standard, true⟩
    let bound (files : StoredFiles) :=
      ((walker files).config scattered.path scattered.data Value.emptyConfig).1
    (∃ c, bound scatteredFiles = .ok c ∧
      Value.at? [.key "sandboxes", .key "kubernetes", .key "auth", .key "kubeconfig"] c =
        some (.text "/rig/kube") ∧
      Value.at? [.key "servers", .index 0, .key "configs", .key "main", .key "file"] c =
        some (.text "/rig/servers/web.conf")) ∧
    ∃ e, bound StoredFiles.empty = .error e := by
  intro walker bound
  have hbuilt : Value.emptyConfig.Built (.record Rig.config) := Value.isConfig_empty.built
  constructor
  · have hok : (bound scatteredFiles).toOption.isSome = true := by decide +kernel
    obtain ⟨c, hc⟩ := Option.isSome_iff_exists.mp hok
    have hbound := ok_of_toOption_eq_some hc
    have hcluster := lands_kubeconfig scatteredFiles.fileSystem
    obtain ⟨-, -, -, hkube, -⟩ :=
      config_paths (walker scatteredFiles) rfl hbuilt hcluster.reaches rfl
    obtain ⟨-, -, -, hfile, -⟩ :=
      config_paths (walker scatteredFiles) rfl hbuilt lands_file.reaches rfl
    exact ⟨c, hbound, hkube c hbound _ hcluster, hfile c hbound _ lands_file⟩
  · obtain ⟨-, -, -, -, habsent⟩ :=
      config_paths (walker StoredFiles.empty) rfl hbuilt (lands_kubeconfig _).reaches rfl
    exact habsent (by decide +kernel)

end Walker

end Testbed
