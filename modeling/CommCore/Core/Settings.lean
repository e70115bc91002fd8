import CommCore.Lib.Json

/-!
# The settings and their JSON conversions (`libs/core/{include/core,src}/settings/`)

`commons`, `server_settings`, `client_settings`, `communications` and `input_file`, each with its
pair of `tag_invoke` functions, as instances of `ValueTo` and `ValueFrom`.

The pairs differ in how they write a missing value: `commons` leaves an empty string out, and its
reader puts it back; the connection settings write every member, an absent `host` or `service` as
`null`, which their readers refuse. So the settings that read back as they were written are those
in which no optional is absent (`roundTrips_iff`, `absent_service_fails`).
-/

namespace CommCore

namespace Settings

open Lib Lib.Json

/-- `commons`. -/
structure Commons where
  appName : Str := []
  version : Str := []
  deriving DecidableEq, Repr

/-- `server_settings`. -/
structure ServerSettings where
  enable : Bool := false
  name : Str := []
  service : Option Str := none
  deriving DecidableEq, Repr

/-- `client_settings`. -/
structure ClientSettings where
  enable : Bool := false
  name : Str := []
  host : Option Str := none
  service : Option Str := none
  deriving DecidableEq, Repr

/-- `communications`. -/
structure Communications where
  server : ServerSettings := {}
  clients : List ClientSettings := []
  deriving DecidableEq, Repr

/-- `input_file`. -/
structure InputFile where
  commons : Commons := {}
  communications : Communications := {}
  deriving DecidableEq, Repr

/-! ## Paths

No setting is a path so far: `resolve_relative_path` reaches every part and changes nothing. -/

def Commons.resolveRelativePath {P : Type} (_path : P) (c : Commons) : Commons := c

def ServerSettings.resolveRelativePath {P : Type} (_path : P) (s : ServerSettings) :
    ServerSettings := s

def ClientSettings.resolveRelativePath {P : Type} (_path : P) (c : ClientSettings) :
    ClientSettings := c

def Communications.resolveRelativePath {P : Type} (path : P) (c : Communications) :
    Communications where
  server := c.server.resolveRelativePath path
  clients := c.clients.map (ClientSettings.resolveRelativePath path)

def InputFile.resolveRelativePath {P : Type} (path : P) (f : InputFile) : InputFile where
  commons := f.commons.resolveRelativePath path
  communications := f.communications.resolveRelativePath path

theorem resolveRelativePath_eq {P : Type} (path : P) (f : InputFile) :
    f.resolveRelativePath path = f := by
  have h : f.communications.clients.map (ClientSettings.resolveRelativePath path) =
      f.communications.clients := List.map_id _
  unfold InputFile.resolveRelativePath Communications.resolveRelativePath
  rw [h]
  rfl

/-! ## Readers -/

instance : ValueTo Commons where
  valueTo jv := do
    let obj ← jv.asObject
    let appName ← obj.readMember (lit "appName") valueTo []
    let version ← obj.readMember (lit "version") valueTo []
    pure { appName, version }

instance : ValueTo ServerSettings where
  valueTo jv := do
    let obj ← jv.asObject
    let enable ← obj.readMember (lit "enable") valueTo false
    let name ← obj.readMember (lit "name") valueTo []
    let service ← obj.readMember (lit "service") readSome none
    pure { enable, name, service }

instance : ValueTo ClientSettings where
  valueTo jv := do
    let obj ← jv.asObject
    let enable ← obj.readMember (lit "enable") valueTo false
    let name ← obj.readMember (lit "name") valueTo []
    let host ← obj.readMember (lit "host") readSome none
    let service ← obj.readMember (lit "service") readSome none
    pure { enable, name, host, service }

instance : ValueTo Communications where
  valueTo jv := do
    let obj ← jv.asObject
    let server ← obj.readMember (lit "server") valueTo {}
    let clients ← obj.readMember (lit "clients") valueTo []
    pure { server, clients }

instance : ValueTo InputFile where
  valueTo jv := do
    let obj ← jv.asObject
    let commons ← obj.readMember (lit "commons") valueTo {}
    let communications ← obj.readMember (lit "communications") valueTo {}
    pure { commons, communications }

/-! ### What they accept -/

/-- A record of two members is read from an object, one after the other. -/
theorem two_members_iff {A B C : Type} (mk : A → B → C) {a : A} {b : B}
    (hmk : ∀ a' b', mk a' b' = mk a b → a' = a ∧ b' = b) {v : Value}
    {f : Obj → Except Json.Error A} {g : Obj → Except Json.Error B} :
    (v.asObject >>= fun obj => f obj >>= fun a => g obj >>= fun b => pure (mk a b)) =
        .ok (mk a b) ↔
      ∃ obj : Obj, v = .object obj ∧ f obj = .ok a ∧ g obj = .ok b := by
  simp only [bind_ok_iff, asObject_ok_iff]
  constructor
  · rintro ⟨obj, rfl, a', h1, b', h2, h⟩
    obtain ⟨rfl, rfl⟩ := hmk a' b' (Except.ok.inj h)
    exact ⟨obj, rfl, h1, h2⟩
  · rintro ⟨obj, rfl, h1, h2⟩
    exact ⟨obj, rfl, a, h1, b, h2, rfl⟩

theorem valueTo_commons_iff {v : Value} {c : Commons} :
    valueTo v = .ok c ↔ ∃ obj : Obj, v = .object obj ∧
      obj.readMember (lit "appName") valueTo [] = .ok c.appName ∧
      obj.readMember (lit "version") valueTo [] = .ok c.version :=
  two_members_iff Commons.mk fun _ _ => Commons.mk.inj

theorem valueTo_server_iff {v : Value} {s : ServerSettings} :
    valueTo v = .ok s ↔ ∃ obj : Obj, v = .object obj ∧
      obj.readMember (lit "enable") valueTo false = .ok s.enable ∧
      obj.readMember (lit "name") valueTo [] = .ok s.name ∧
      obj.readMember (lit "service") readSome none = .ok s.service := by
  show (_ >>= _) = _ ↔ _
  simp only [bind_ok_iff, asObject_ok_iff]
  constructor
  · rintro ⟨obj, rfl, _, h1, _, h2, _, h3, h⟩
    cases h
    exact ⟨obj, rfl, h1, h2, h3⟩
  · rintro ⟨obj, rfl, h1, h2, h3⟩
    exact ⟨obj, rfl, _, h1, _, h2, _, h3, rfl⟩

theorem valueTo_client_iff {v : Value} {c : ClientSettings} :
    valueTo v = .ok c ↔ ∃ obj : Obj, v = .object obj ∧
      obj.readMember (lit "enable") valueTo false = .ok c.enable ∧
      obj.readMember (lit "name") valueTo [] = .ok c.name ∧
      obj.readMember (lit "host") readSome none = .ok c.host ∧
      obj.readMember (lit "service") readSome none = .ok c.service := by
  show (_ >>= _) = _ ↔ _
  simp only [bind_ok_iff, asObject_ok_iff]
  constructor
  · rintro ⟨obj, rfl, _, h1, _, h2, _, h3, _, h4, h⟩
    cases h
    exact ⟨obj, rfl, h1, h2, h3, h4⟩
  · rintro ⟨obj, rfl, h1, h2, h3, h4⟩
    exact ⟨obj, rfl, _, h1, _, h2, _, h3, _, h4, rfl⟩

theorem valueTo_communications_iff {v : Value} {c : Communications} :
    valueTo v = .ok c ↔ ∃ obj : Obj, v = .object obj ∧
      obj.readMember (lit "server") valueTo {} = .ok c.server ∧
      obj.readMember (lit "clients") valueTo [] = .ok c.clients :=
  two_members_iff Communications.mk fun _ _ => Communications.mk.inj

theorem valueTo_inputFile_iff {v : Value} {f : InputFile} :
    valueTo v = .ok f ↔ ∃ obj : Obj, v = .object obj ∧
      obj.readMember (lit "commons") valueTo {} = .ok f.commons ∧
      obj.readMember (lit "communications") valueTo {} = .ok f.communications :=
  two_members_iff InputFile.mk fun _ _ => InputFile.mk.inj

/-! ## Writers -/

/-- `if (!s.empty()) obj[key] = value_from(s);`. -/
def setNonEmpty (obj : Obj) (key s : Str) : Obj :=
  if s ≠ [] then obj.set key (valueFrom s) else obj

instance : ValueFrom Commons where
  valueFrom c :=
    let obj : Obj := []
    let obj := setNonEmpty obj (lit "appName") c.appName
    let obj := setNonEmpty obj (lit "version") c.version
    .object obj

instance : ValueFrom ServerSettings where
  valueFrom s :=
    let obj : Obj := []
    let obj := obj.set (lit "enable") (valueFrom s.enable)
    let obj := obj.set (lit "name") (valueFrom s.name)
    let obj := obj.set (lit "service") (valueFrom s.service)
    .object obj

instance : ValueFrom ClientSettings where
  valueFrom c :=
    let obj : Obj := []
    let obj := obj.set (lit "enable") (valueFrom c.enable)
    let obj := obj.set (lit "name") (valueFrom c.name)
    let obj := obj.set (lit "host") (valueFrom c.host)
    let obj := obj.set (lit "service") (valueFrom c.service)
    .object obj

instance : ValueFrom Communications where
  valueFrom c :=
    let obj : Obj := []
    let obj := obj.set (lit "server") (valueFrom c.server)
    let obj := obj.set (lit "clients") (valueFrom c.clients)
    .object obj

instance : ValueFrom InputFile where
  valueFrom f :=
    let obj : Obj := []
    let obj := obj.set (lit "commons") (valueFrom f.commons)
    let obj := obj.set (lit "communications") (valueFrom f.communications)
    .object obj

/-! ## Round trips -/

theorem find_setNonEmpty_ne (obj : Obj) {key key' : Str} (s : Str) (h : key' ≠ key) :
    (setNonEmpty obj key s).find key' = obj.find key' := by
  unfold setNonEmpty
  by_cases hs : s ≠ []
  · rw [if_pos hs, find_set_ne obj _ h]
  · rw [if_neg hs]

/-- A string left out because it is empty reads as the empty string. -/
theorem readMember_setNonEmpty {obj obj' : Obj} {key : Str} (s : Str) (hn : obj.find key = none)
    (h : obj'.find key = (setNonEmpty obj key s).find key) :
    obj'.readMember key valueTo [] = .ok s := by
  unfold setNonEmpty at h
  by_cases hs : s = []
  · subst hs
    exact readMember_none (h.trans hn) _ _
  · rw [if_pos hs, find_set_self] at h
    exact (readMember_iff h _).mpr (roundTrips_str s)

/-- Every `commons` reads back, with its empty strings. -/
theorem roundTrips_commons (c : Commons) : RoundTrips c := by
  have hne : lit "appName" ≠ lit "version" := by decide
  refine valueTo_commons_iff.mpr ⟨_, rfl, ?_, ?_⟩
  · exact readMember_setNonEmpty c.appName (find_nil _) (find_setNonEmpty_ne _ _ hne)
  · exact readMember_setNonEmpty c.version (find_setNonEmpty_ne [] c.appName hne.symm) rfl

/-- The server settings read back exactly if they have a service. -/
theorem roundTrips_server_iff (s : ServerSettings) : RoundTrips s ↔ s.service.isSome := by
  rw [RoundTrips, valueTo_server_iff]
  show (∃ obj : Obj, Value.object _ = .object obj ∧ _) ↔ _
  simp only [Value.object.injEq, exists_eq_left']
  rw [readMember_iff (by simp (disch := decide) [find_set_ne]),
    readMember_iff (by simp (disch := decide) [find_set_ne]),
    readMember_opt_iff (by simp)]
  simp [roundTrips_bool, roundTrips_str]

/-- The settings of a client read back exactly if they have a host and a service. -/
theorem roundTrips_client_iff (c : ClientSettings) :
    RoundTrips c ↔ c.host.isSome ∧ c.service.isSome := by
  rw [RoundTrips, valueTo_client_iff]
  show (∃ obj : Obj, Value.object _ = .object obj ∧ _) ↔ _
  simp only [Value.object.injEq, exists_eq_left']
  rw [readMember_iff (by simp (disch := decide) [find_set_ne]),
    readMember_iff (by simp (disch := decide) [find_set_ne]),
    readMember_opt_iff (by simp (disch := decide) [find_set_ne]),
    readMember_opt_iff (by simp)]
  simp [roundTrips_bool, roundTrips_str]

theorem roundTrips_communications_iff (c : Communications) :
    RoundTrips c ↔ RoundTrips c.server ∧ RoundTrips c.clients := by
  rw [RoundTrips, valueTo_communications_iff]
  show (∃ obj : Obj, Value.object _ = .object obj ∧ _) ↔ _
  simp only [Value.object.injEq, exists_eq_left']
  rw [readMember_iff (by simp (disch := decide) [find_set_ne]), readMember_iff (by simp)]

theorem roundTrips_inputFile_iff (f : InputFile) :
    RoundTrips f ↔ RoundTrips f.commons ∧ RoundTrips f.communications := by
  rw [RoundTrips, valueTo_inputFile_iff]
  show (∃ obj : Obj, Value.object _ = .object obj ∧ _) ↔ _
  simp only [Value.object.injEq, exists_eq_left']
  rw [readMember_iff (by simp (disch := decide) [find_set_ne]), readMember_iff (by simp)]

/-- **The settings that read back as they were written** are those with a service for the server,
and a host and a service for every client. -/
theorem roundTrips_iff (f : InputFile) : RoundTrips f ↔
    f.communications.server.service.isSome ∧
      ∀ c ∈ f.communications.clients, c.host.isSome ∧ c.service.isSome := by
  rw [roundTrips_inputFile_iff, roundTrips_communications_iff, roundTrips_server_iff,
    roundTrips_list_iff]
  simp only [roundTrips_commons, roundTrips_client_iff, true_and]

/-- The default settings do not read back: their server has no service. -/
theorem absent_service_fails :
    valueTo (α := InputFile) (valueFrom ({} : InputFile)) = .error .notString := by
  rfl

end Settings

end CommCore
