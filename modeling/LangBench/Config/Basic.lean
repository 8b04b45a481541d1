import LangBench.Params.Basic

/-!
Configurations of a benchmark.

A configuration names instances of languages and of nets. An instance has the name of a preset and
parameters that override its defaults: all the fields of its entry but the one of the preset.
-/

namespace LangBench

/-- An instance of a preset. -/
structure Instance where
  preset : String
  params : Params

/-- The languages and nets of a benchmark, by the names of their instances. -/
structure Config where
  langs : Dict Instance
  nets : Dict Instance

namespace Config

def readInstance (kind : Kind) (name : String) (entry : Json) : Except RunError Instance :=
  match entry.asObject? with
  | none => .error (.config (.entryNotAnObject kind name))
  | some fields =>
    match fields.get? kind.key with
    | some (.str preset) => .ok ⟨preset, fields.erase kind.key⟩
    | some _ => .error (.config (.presetNotAString kind name))
    | none => .error (.config (.missingPreset kind name))

/-- Read the entries of a section in the order of their names, stopping at the first bad one. -/
def readEntries (kind : Kind) (entries : List (String × Json)) : Except RunError (Dict Instance) :=
  (entries.mapM fun (name, entry) ↦
    (readInstance kind name entry).map fun i ↦ (name, i)).map Dict.ofList

def readSection (kind : Kind) (root : Dict Json) : Except RunError (Dict Instance) :=
  match root.get? kind.sectionKey with
  | none => .error (.config (.missingSection kind))
  | some v =>
    match v.asObject? with
    | none => .error (.config (.sectionNotAnObject kind))
    | some entries => readEntries kind entries.entries

def ofJson (document : Json) : Except RunError Config :=
  match document.asObject? with
  | none => .error (.config .notAnObject)
  | some root => do
    let langs ← readSection .lang root
    let nets ← readSection .net root
    return { langs, nets }

def ofText (text : String) : Except RunError Config :=
  match Json.parse? text with
  | some document => ofJson document
  | none => .error .notJson

/-- Refuse the first instance whose preset does not exist, the languages first. -/
def validate (c : Config) (langExists netExists : String → Bool) : Except RunError Unit := do
  c.langs.values.forM fun i ↦ check .lang langExists i
  c.nets.values.forM fun i ↦ check .net netExists i
where
  check (kind : Kind) (known : String → Bool) (i : Instance) : Except RunError Unit :=
    if known i.preset then .ok () else .error (.unknownPreset kind i.preset)

end Config

end LangBench
