import CommCore.Core.Loading
import CommCore.Core.SettingsGrammar
import CommCore.Lib.Writers

/-!
# What the settings writers keep (`libs/core/src/settings/`)

The writers have all of the settings in what they write, though the readers refuse some of it.

- **Written settings** (`Written`). Different settings are written differently; what is written
  reads back as it is, or is refused as a value that is no string (`written`).
- **Read, written and read again.** What is written for the settings of a document reads back
  exactly if the document names the server's service, and the host and the service of each client
  (`named_iff`). So of the JSON that `read_input_file` logs after a load, another load reads the
  same settings, or throws; the document decides which (`reload`).
-/

namespace CommCore

namespace Settings

open Lib Lib.Json Errors

/-! ## What is under the keys of written settings -/

theorem written_server (s : ServerSettings) : ∃ obj : Obj, valueFrom s = .object obj ∧
    obj.find (lit "enable") = some (valueFrom s.enable) ∧
    obj.find (lit "name") = some (valueFrom s.name) ∧
    obj.find (lit "service") = some (valueFrom s.service) :=
  ⟨_, rfl, by simp (disch := decide) [find_set_ne], by simp (disch := decide) [find_set_ne],
    by simp⟩

theorem written_client (c : ClientSettings) : ∃ obj : Obj, valueFrom c = .object obj ∧
    obj.find (lit "enable") = some (valueFrom c.enable) ∧
    obj.find (lit "name") = some (valueFrom c.name) ∧
    obj.find (lit "host") = some (valueFrom c.host) ∧
    obj.find (lit "service") = some (valueFrom c.service) :=
  ⟨_, rfl, by simp (disch := decide) [find_set_ne], by simp (disch := decide) [find_set_ne],
    by simp (disch := decide) [find_set_ne], by simp⟩

theorem written_communications (c : Communications) : ∃ obj : Obj, valueFrom c = .object obj ∧
    obj.find (lit "server") = some (valueFrom c.server) ∧
    obj.find (lit "clients") = some (valueFrom c.clients) :=
  ⟨_, rfl, by simp (disch := decide) [find_set_ne], by simp⟩

theorem written_inputFile (f : InputFile) : ∃ obj : Obj, valueFrom f = .object obj ∧
    obj.find (lit "commons") = some (valueFrom f.commons) ∧
    obj.find (lit "communications") = some (valueFrom f.communications) :=
  ⟨_, rfl, by simp (disch := decide) [find_set_ne], by simp⟩

/-! ## Different settings are written differently -/

theorem valueFrom_commons_inj : Function.Injective (valueFrom : Commons → Value) :=
  valueFrom_inj_of_roundTrips roundTrips_commons

theorem valueFrom_server_inj : Function.Injective (valueFrom : ServerSettings → Value) := by
  intro s s' h
  obtain ⟨obj, hobj, hen, hname, hserv⟩ := written_server s
  obtain ⟨obj', hobj', hen', hname', hserv'⟩ := written_server s'
  rw [hobj, hobj'] at h
  rw [ServerSettings.mk.injEq]
  exact ⟨valueFrom_bool_inj (find_inj h hen hen'), valueFrom_str_inj (find_inj h hname hname'),
    valueFrom_opt_inj (find_inj h hserv hserv')⟩

theorem valueFrom_client_inj : Function.Injective (valueFrom : ClientSettings → Value) := by
  intro c c' h
  obtain ⟨obj, hobj, hen, hname, hhost, hserv⟩ := written_client c
  obtain ⟨obj', hobj', hen', hname', hhost', hserv'⟩ := written_client c'
  rw [hobj, hobj'] at h
  rw [ClientSettings.mk.injEq]
  exact ⟨valueFrom_bool_inj (find_inj h hen hen'), valueFrom_str_inj (find_inj h hname hname'),
    valueFrom_opt_inj (find_inj h hhost hhost'), valueFrom_opt_inj (find_inj h hserv hserv')⟩

theorem valueFrom_communications_inj :
    Function.Injective (valueFrom : Communications → Value) := by
  intro c c' h
  obtain ⟨obj, hobj, hserver, hclients⟩ := written_communications c
  obtain ⟨obj', hobj', hserver', hclients'⟩ := written_communications c'
  rw [hobj, hobj'] at h
  rw [Communications.mk.injEq]
  exact ⟨valueFrom_server_inj (find_inj h hserver hserver'),
    valueFrom_list_inj valueFrom_client_inj (find_inj h hclients hclients')⟩

theorem valueFrom_inputFile_inj : Function.Injective (valueFrom : InputFile → Value) := by
  intro f f' h
  obtain ⟨obj, hobj, hcommons, hcomms⟩ := written_inputFile f
  obtain ⟨obj', hobj', hcommons', hcomms'⟩ := written_inputFile f'
  rw [hobj, hobj'] at h
  rw [InputFile.mk.injEq]
  exact ⟨valueFrom_commons_inj (find_inj h hcommons hcommons'),
    valueFrom_communications_inj (find_inj h hcomms hcomms')⟩

/-! ## What is written is read as it is, or refused -/

theorem back_server (s : ServerSettings) : Back .notString (valueTo (valueFrom s)) s := by
  obtain ⟨obj, hobj, hen, hname, hserv⟩ := written_server s
  rw [hobj]
  exact Back.bind (.inl rfl) <|
    Back.bind (.member hen (roundTrips_bool _).back _) <|
    Back.bind (.member hname (roundTrips_str _).back _) <|
    Back.bind (.member hserv (back_opt _) _) (.inl rfl)

theorem back_client (c : ClientSettings) : Back .notString (valueTo (valueFrom c)) c := by
  obtain ⟨obj, hobj, hen, hname, hhost, hserv⟩ := written_client c
  rw [hobj]
  exact Back.bind (.inl rfl) <|
    Back.bind (.member hen (roundTrips_bool _).back _) <|
    Back.bind (.member hname (roundTrips_str _).back _) <|
    Back.bind (.member hhost (back_opt _) _) <|
    Back.bind (.member hserv (back_opt _) _) (.inl rfl)

theorem back_communications (c : Communications) :
    Back .notString (valueTo (valueFrom c)) c := by
  obtain ⟨obj, hobj, hserver, hclients⟩ := written_communications c
  rw [hobj]
  exact Back.bind (.inl rfl) <|
    Back.bind (.member hserver (back_server _) _) <|
    Back.bind (.member hclients (back_list back_client _) _) (.inl rfl)

theorem back_inputFile (f : InputFile) : Back .notString (valueTo (valueFrom f)) f := by
  obtain ⟨obj, hobj, hcommons, hcomms⟩ := written_inputFile f
  rw [hobj]
  exact Back.bind (.inl rfl) <|
    Back.bind (.member hcommons (roundTrips_commons _).back _) <|
    Back.bind (.member hcomms (back_communications _) _) (.inl rfl)

/-- What is written for the settings `f`:

* `determines`: it is written for no other settings;
* `back`: it reads back as `f`, or is refused, as a value that is no string;
* `accepts`: it is in the grammar of the reader exactly if it reads back. -/
structure Written (f : InputFile) : Prop where
  determines : ∀ g : InputFile, valueFrom g = valueFrom f → g = f
  back : valueTo (valueFrom f) = .ok f ∨ valueTo (α := InputFile) (valueFrom f) = .error .notString
  accepts : inputFileSchema.Accepts (valueFrom f) ↔ RoundTrips f

/-- **Written settings have all of the settings in them**, and are never read as others. -/
theorem written (f : InputFile) : Written f where
  determines _ h := valueFrom_inputFile_inj h
  back := back_inputFile f
  accepts := by
    rw [← reads_inputFile.accepts]
    constructor
    · rintro ⟨g, hg⟩
      rw [(back_inputFile f).ok hg] at hg
      exact hg
    · exact fun h => ⟨f, h⟩

/-! ## Read, written and read again -/

/-- Any value. -/
def Anything (_v : Value) : Prop := True

def ServerNamed (v : Value) : Prop := v.Has (lit "service") Anything

def ClientNamed (v : Value) : Prop := v.Has (lit "host") Anything ∧ v.Has (lit "service") Anything

def CommunicationsNamed (v : Value) : Prop :=
  v.Has (lit "server") ServerNamed ∧
    ∀ vs, v.Has (lit "clients") (· = .array vs) → ∀ w ∈ vs, ClientNamed w

/-- The document has a key for every optional of the connections that it sets up. -/
def Named (v : Value) : Prop := v.Has (lit "communications") CommunicationsNamed

theorem gives_isSome_iff {obj : Obj} {key : Str} {o : Option Str}
    (h : obj.Gives key SomeStrAt none o) :
    o.isSome = true ↔ (Value.object obj).Has key Anything := by
  rw [has_object]
  unfold Obj.Gives at h
  cases hk : obj.find key with
  | none =>
    rw [hk] at h
    rw [h]
    exact iff_of_false Bool.false_ne_true nofun
  | some w =>
    rw [hk] at h
    obtain ⟨s, -, rfl⟩ := h
    exact iff_of_true rfl ⟨w, rfl, trivial⟩

theorem serverNamed_iff {v : Value} {s : ServerSettings} (h : ServerAt v s) :
    s.service.isSome ↔ ServerNamed v := by
  obtain ⟨obj, rfl, -, -, hserv⟩ := h
  exact gives_isSome_iff hserv

theorem clientNamed_iff {v : Value} {c : ClientSettings} (h : ClientAt v c) :
    c.host.isSome ∧ c.service.isSome ↔ ClientNamed v := by
  obtain ⟨obj, rfl, -, -, hhost, hserv⟩ := h
  exact and_congr (gives_isSome_iff hhost) (gives_isSome_iff hserv)

theorem clientsNamed_iff {vs : List Value} {cs : List ClientSettings}
    (h : List.Forall₂ ClientAt vs cs) :
    (∀ c ∈ cs, c.host.isSome ∧ c.service.isSome) ↔ ∀ w ∈ vs, ClientNamed w := by
  induction h with
  | nil => simp
  | cons hc _ ih => rw [List.forall_mem_cons, List.forall_mem_cons, ih, clientNamed_iff hc]

theorem communicationsNamed_iff {v : Value} {c : Communications} (h : CommunicationsAt v c) :
    (c.server.service.isSome ∧ ∀ d ∈ c.clients, d.host.isSome ∧ d.service.isSome) ↔
      CommunicationsNamed v := by
  obtain ⟨obj, rfl, hserver, hclients⟩ := h
  refine and_congr ?_ ?_
  · rw [has_object]
    unfold Obj.Gives at hserver
    cases hk : obj.find (lit "server") with
    | none =>
      -- the default server has no service
      rw [hk] at hserver
      rw [hserver]
      exact iff_of_false Bool.false_ne_true nofun
    | some w =>
      rw [hk] at hserver
      rw [serverNamed_iff hserver]
      exact ⟨fun hw => ⟨w, rfl, hw⟩, fun ⟨w', hw', hn⟩ => Option.some.inj hw' ▸ hn⟩
  · simp only [has_object]
    unfold Obj.Gives at hclients
    cases hk : obj.find (lit "clients") with
    | none =>
      rw [hk] at hclients
      rw [hclients]
      exact iff_of_true nofun fun vs ⟨w, hw, _⟩ => nomatch hw
    | some w =>
      rw [hk] at hclients
      obtain ⟨vs, rfl, hvs⟩ := hclients
      rw [clientsNamed_iff hvs]
      constructor
      · rintro hall vs' ⟨w, hw, rfl⟩
        cases hw
        exact hall
      · exact fun hall => hall vs ⟨_, rfl, rfl⟩

/-- What is written for the settings of a document reads back exactly if the document names its
connections. -/
theorem named_iff {v : Value} {f : InputFile} (h : valueTo v = .ok f) :
    RoundTrips f ↔ Named v := by
  obtain ⟨obj, rfl, -, hcomms⟩ := inputFileAt_of_ok h
  rw [roundTrips_iff]
  show _ ↔ (Value.object obj).Has _ _
  rw [has_object]
  unfold Obj.Gives at hcomms
  cases hk : obj.find (lit "communications") with
  | none =>
    rw [hk] at hcomms
    rw [hcomms]
    exact iff_of_false (fun hf => Bool.false_ne_true hf.1) nofun
  | some w =>
    rw [hk] at hcomms
    rw [communicationsNamed_iff hcomms]
    exact ⟨fun hw => ⟨w, rfl, hw⟩, fun ⟨w', hw', hn⟩ => Option.some.inj hw' ▸ hn⟩

/-! ## A log that is loaded -/

variable {P : Type}

/-- The file opens, can be read, and parses to `v`. -/
def LoadCall.Parses (c : LoadCall P) (v : Value) : Prop := ∃ text,
  readText c.env (c.env.string c.path) = .ok text ∧
    c.env.parse { allowComments := isJsoncPath c.env c.path, allowTrailingCommas := true }
      (stripBom text) = .ok v

theorem LoadCall.Parses.load_eq {c : LoadCall P} {v : Value} (h : c.Parses v) :
    load c.env c.path = (valueTo (α := InputFile) v).mapError c.env.conversionError := by
  obtain ⟨text, hc, hp⟩ := h
  unfold load
  rw [hc]
  show (c.env.parse _ (stripBom text) >>= _) = _
  rw [hp]
  rfl

theorem LoadCall.reads_of_loaded {c : LoadCall P} {f : InputFile}
    (h : load c.env c.path = .ok f) :
    (∀ o, (c.leaves o).inputFile = f) ∧ (c.thrown = none ↔ c.log (valueFrom f) = .ok ()) := by
  unfold LoadCall.leaves LoadCall.thrown
  rw [h]
  refine ⟨fun _ => rfl, ?_⟩
  dsimp only
  cases c.log (valueFrom f) with
  | ok u => exact iff_of_true rfl rfl
  | error e => exact iff_of_false nofun nofun

theorem LoadCall.keeps_of_error {c : LoadCall P} {e : LibError}
    (h : load c.env c.path = .error e) :
    c.thrown = some (wrap c.env c.path e) ∧ ∀ o, (c.leaves o).inputFile = o.inputFile := by
  unfold LoadCall.leaves LoadCall.thrown
  rw [h]
  exact ⟨rfl, fun _ => rfl⟩

/-- A later call, with what the call `c` has logged (from the state `o`) in its file:

* `same`: if the document `v` of `c` names its connections, it reads the settings of `c`, and
  returns if it can log them;
* `refused`: otherwise it throws, and leaves the settings as they were. -/
structure Reloaded (c c' : LoadCall P) (v : Value) (o : Options P) : Prop where
  same : Named v → (∀ o', (c'.leaves o').inputFile = (c.leaves o).inputFile) ∧
    (c'.thrown = none ↔ c'.log (valueFrom (c.leaves o).inputFile) = .ok ())
  refused : ¬ Named v →
    c'.thrown = some (wrap c'.env c'.path (c'.env.conversionError .notString)) ∧
      ∀ o', (c'.leaves o').inputFile = o'.inputFile

/-- **The JSON that a load has logged reads as the same settings, or not at all**, and it is the
document of that load which decides. -/
theorem reload {c c' : LoadCall P} {v : Value} {o : Options P} (hv : c.Parses v)
    (hc : c.thrown = none) (hc' : c'.Parses (valueFrom (c.leaves o).inputFile)) :
    Reloaded c c' v o := by
  obtain ⟨-, hload⟩ := c.loaded hc o
  have hread : valueTo v = .ok (c.leaves o).inputFile := by
    rw [hv.load_eq] at hload
    cases hf : valueTo (α := InputFile) v with
    | ok g => rw [hf] at hload; exact congrArg Except.ok (Except.ok.inj hload)
    | error e => rw [hf] at hload; cases hload
  have hload' := hc'.load_eq
  refine ⟨fun hn => LoadCall.reads_of_loaded ?_, fun hn => LoadCall.keeps_of_error ?_⟩
  · have hrt : RoundTrips (c.leaves o).inputFile := (named_iff hread).mpr hn
    rw [hload', hrt]
    rfl
  · have hback := (back_inputFile (c.leaves o).inputFile).resolve_left fun hrt =>
      hn ((named_iff hread).mp hrt)
    rw [hload', hback]
    rfl

/-! ## A document with a service -/

/-- The settings of a server on port 80, without a client. -/
def port80 : InputFile := { communications := { server := { service := some (lit "80") } } }

/-- A document for them. -/
def port80Text : Str :=
  lit "\x7b\"communications\":\x7b\"server\":\x7b\"service\":\"80\"\x7d\x7d\x7d"

/-- The value of that document. -/
def port80Value : Value :=
  .object [(lit "communications", .object [(lit "server", .object [(lit "service",
    .string (lit "80"))])])]

/-- The text that is logged for it. -/
def port80Log : Str := lit ("\x7b\"commons\":\x7b\x7d,\"communications\":\x7b\"server\":" ++
  "\x7b\"enable\":false,\"name\":\"\",\"service\":\"80\"\x7d,\"clients\":[]\x7d\x7d")

/-- A file with the given text, and a parser that knows the two texts. -/
def port80Call (text : Str) : LoadCall Str where
  env := { plainEnv fun _ => some text with
    parse := fun _ text =>
      if text = port80Text then .ok port80Value
      else if text = port80Log then .ok (valueFrom port80)
      else .error { boost := true, std := true, what := lit "syntax error" } }
  log _ := .ok ()
  path := lit "app.jsonc"

theorem named_port80 : Named port80Value :=
  has_object.mpr ⟨_, rfl, has_object.mpr ⟨_, rfl, has_object.mpr ⟨_, rfl, trivial⟩⟩,
    fun _ h => by obtain ⟨w, hw, -⟩ := has_object.mp h; cases hw⟩

/-- The document is loaded, and then what was logged for it. -/
theorem reload_port80 : Named port80Value ∧ (port80Call port80Text).thrown = none ∧
    Reloaded (port80Call port80Text) (port80Call port80Log) port80Value ⟨[], {}⟩ := by
  have hthrown : (port80Call port80Text).thrown = none := by decide
  refine ⟨named_port80, hthrown, reload ⟨port80Text, rfl, ?_⟩ hthrown ⟨port80Log, rfl, ?_⟩⟩
  · rfl
  · rfl

end Settings

end CommCore
