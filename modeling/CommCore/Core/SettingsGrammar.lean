import CommCore.Core.Settings
import CommCore.Lib.Schema

/-!
# What the settings readers accept (`libs/core/src/settings/`)

- **The grammar.** One schema for each reader: the keys it reads, and the kind of value it takes
  under each (`reads_inputFile`).
- **The settings.** `InputFileAt v f`: every field of `f` is what `v` has under the key of that
  field, or the default without it (`inputFileAt_of_ok`).

`reads_grammar` puts them together: what is accepted, what is read, and what is ignored.
-/

namespace CommCore

namespace Settings

open Lib Lib.Json

/-! ## The grammar -/

def commonsSchema : Schema :=
  .object [(lit "appName", .string), (lit "version", .string)]

def serverSchema : Schema :=
  .object [(lit "enable", .bool), (lit "name", .string), (lit "service", .string)]

def clientSchema : Schema :=
  .object [(lit "enable", .bool), (lit "name", .string), (lit "host", .string),
    (lit "service", .string)]

def communicationsSchema : Schema :=
  .object [(lit "server", serverSchema), (lit "clients", .array clientSchema)]

def inputFileSchema : Schema :=
  .object [(lit "commons", commonsSchema), (lit "communications", communicationsSchema)]

theorem reads_commons : Reads commonsSchema (valueTo (α := Commons)) :=
  reads_object <|
    .member reads_str [] fun _ =>
    .member reads_str [] fun _ =>
    .pure _

theorem reads_server : Reads serverSchema (valueTo (α := ServerSettings)) :=
  reads_object <|
    .member reads_bool false fun _ =>
    .member reads_str [] fun _ =>
    .member (reads_some reads_str) none fun _ =>
    .pure _

theorem reads_client : Reads clientSchema (valueTo (α := ClientSettings)) :=
  reads_object <|
    .member reads_bool false fun _ =>
    .member reads_str [] fun _ =>
    .member (reads_some reads_str) none fun _ =>
    .member (reads_some reads_str) none fun _ =>
    .pure _

theorem reads_communications : Reads communicationsSchema (valueTo (α := Communications)) :=
  reads_object <|
    .member reads_server {} fun _ =>
    .member (reads_list reads_client) [] fun _ =>
    .pure _

/-- The reader of the whole file accepts its grammar, and sees what the grammar names. -/
theorem reads_inputFile : Reads inputFileSchema (valueTo (α := InputFile)) :=
  reads_object <|
    .member reads_commons {} fun _ =>
    .member reads_communications {} fun _ =>
    .pure _

/-! ## The settings -/

def BoolAt (v : Value) (b : Bool) : Prop := v = .bool b

def StrAt (v : Value) (s : Str) : Prop := v = .string s

/-- A string that is present. -/
def SomeStrAt (v : Value) (o : Option Str) : Prop := ∃ s, v = .string s ∧ o = some s

def CommonsAt (v : Value) (c : Commons) : Prop :=
  ∃ obj : Obj, v = .object obj ∧
    obj.Gives (lit "appName") StrAt [] c.appName ∧
    obj.Gives (lit "version") StrAt [] c.version

def ServerAt (v : Value) (s : ServerSettings) : Prop :=
  ∃ obj : Obj, v = .object obj ∧
    obj.Gives (lit "enable") BoolAt false s.enable ∧
    obj.Gives (lit "name") StrAt [] s.name ∧
    obj.Gives (lit "service") SomeStrAt none s.service

def ClientAt (v : Value) (c : ClientSettings) : Prop :=
  ∃ obj : Obj, v = .object obj ∧
    obj.Gives (lit "enable") BoolAt false c.enable ∧
    obj.Gives (lit "name") StrAt [] c.name ∧
    obj.Gives (lit "host") SomeStrAt none c.host ∧
    obj.Gives (lit "service") SomeStrAt none c.service

/-- One client for each item of the array, in its order. -/
def ClientsAt (v : Value) (cs : List ClientSettings) : Prop :=
  ∃ vs, v = .array vs ∧ List.Forall₂ ClientAt vs cs

def CommunicationsAt (v : Value) (c : Communications) : Prop :=
  ∃ obj : Obj, v = .object obj ∧
    obj.Gives (lit "server") ServerAt {} c.server ∧
    obj.Gives (lit "clients") ClientsAt [] c.clients

def InputFileAt (v : Value) (f : InputFile) : Prop :=
  ∃ obj : Obj, v = .object obj ∧
    obj.Gives (lit "commons") CommonsAt {} f.commons ∧
    obj.Gives (lit "communications") CommunicationsAt {} f.communications

theorem boolAt_of_ok {v : Value} {b : Bool} (h : valueTo v = .ok b) : BoolAt v b := by
  cases v <;> cases h
  rfl

theorem strAt_of_ok {v : Value} {s : Str} (h : valueTo v = .ok s) : StrAt v s := by
  cases v <;> cases h
  rfl

theorem someStrAt_of_ok {v : Value} {o : Option Str} (h : readSome v = .ok o) :
    SomeStrAt v o := by
  cases v <;> cases h
  exact ⟨_, rfl, rfl⟩

theorem commonsAt_of_ok {v : Value} {c : Commons} (h : valueTo v = .ok c) : CommonsAt v c := by
  obtain ⟨obj, hv, happ, hver⟩ := valueTo_commons_iff.mp h
  exact ⟨obj, hv, gives_of_readMember (fun _ _ => strAt_of_ok) happ,
    gives_of_readMember (fun _ _ => strAt_of_ok) hver⟩

theorem serverAt_of_ok {v : Value} {s : ServerSettings} (h : valueTo v = .ok s) :
    ServerAt v s := by
  obtain ⟨obj, hv, hen, hname, hserv⟩ := valueTo_server_iff.mp h
  exact ⟨obj, hv, gives_of_readMember (fun _ _ => boolAt_of_ok) hen,
    gives_of_readMember (fun _ _ => strAt_of_ok) hname,
    gives_of_readMember (fun _ _ => someStrAt_of_ok) hserv⟩

theorem clientAt_of_ok {v : Value} {c : ClientSettings} (h : valueTo v = .ok c) :
    ClientAt v c := by
  obtain ⟨obj, hv, hen, hname, hhost, hserv⟩ := valueTo_client_iff.mp h
  exact ⟨obj, hv, gives_of_readMember (fun _ _ => boolAt_of_ok) hen,
    gives_of_readMember (fun _ _ => strAt_of_ok) hname,
    gives_of_readMember (fun _ _ => someStrAt_of_ok) hhost,
    gives_of_readMember (fun _ _ => someStrAt_of_ok) hserv⟩

theorem clientsAt_of_ok {v : Value} {cs : List ClientSettings} (h : valueTo v = .ok cs) :
    ClientsAt v cs := by
  obtain ⟨vs, hvs, hcs⟩ := bind_ok_iff.mp h
  cases v <;> cases hvs
  exact ⟨vs, rfl, (mapM_ok_iff.mp hcs).imp fun _ _ => clientAt_of_ok⟩

theorem communicationsAt_of_ok {v : Value} {c : Communications} (h : valueTo v = .ok c) :
    CommunicationsAt v c := by
  obtain ⟨obj, hv, hserver, hclients⟩ := valueTo_communications_iff.mp h
  exact ⟨obj, hv, gives_of_readMember (fun _ _ => serverAt_of_ok) hserver,
    gives_of_readMember (fun _ _ => clientsAt_of_ok) hclients⟩

theorem inputFileAt_of_ok {v : Value} {f : InputFile} (h : valueTo v = .ok f) :
    InputFileAt v f := by
  obtain ⟨obj, hv, hcommons, hcomms⟩ := valueTo_inputFile_iff.mp h
  exact ⟨obj, hv, gives_of_readMember (fun _ _ => commonsAt_of_ok) hcommons,
    gives_of_readMember (fun _ _ => communicationsAt_of_ok) hcomms⟩

/-- The settings reader on a value. -/
structure ReadsGrammar (v : Value) : Prop where
  /-- It succeeds exactly on the values of the grammar. -/
  accepts : (∃ f : InputFile, valueTo v = .ok f) ↔ inputFileSchema.Accepts v
  /-- It reads every field from its key. -/
  fields : ∀ f : InputFile, valueTo v = .ok f → InputFileAt v f
  /-- It ignores what the grammar does not name. -/
  unknown : ∀ w, inputFileSchema.Agree v w → valueTo (α := InputFile) w = valueTo v
  /-- It ignores the order of the keys. -/
  order : ∀ w, Reordered v w → valueTo (α := InputFile) w = valueTo v

/-- **The settings reader accepts exactly its grammar**, takes each field from its key or from its
default, and depends on neither the order of the keys nor any other key, at any level. -/
theorem reads_grammar (v : Value) : ReadsGrammar v where
  accepts := reads_inputFile.accepts v
  fields _ := inputFileAt_of_ok
  unknown w h := (reads_inputFile.agree v w h).symm
  order w h := (reads_inputFile.agree v w (h.agree inputFileSchema)).symm

end Settings

end CommCore
