import DaemonFramework.Decimal
import DaemonFramework.Json
import DaemonFramework.Protocol.Schema
import DaemonFramework.Worklist
import Std.Data.TreeMap.Lemmas

/-!
# The generated contracts

`render` of `shelllist-daemon-core/src/bin/shelllist-protocol-js.rs`: the module that is generated
from a protocol registry, with the schemas of its events under the keys `stream:event` and the
contracts of its methods under their names. `validateEvent` and its kind in `schema_validation.js`
look them up.

The maps keep the last value for a key. An event is found under its own names where no other event
has its key, and nothing else is found where its key is not that of other names:
`contracts_found_iff`.
-/

namespace DaemonFramework.Protocol

/-! ## Values of both languages -/

/-- A `serde_json` number, as its text has it. -/
def ofNumber : Number → Double
  | .posInt n => .finite n.toNat
  | .negInt n => .finite n.toInt
  | .float bits =>
    .finite (Decimal.F64.toRat ⟨2 ^ 63 ≤ bits.toNat, bits.toNat % 2 ^ 63, Nat.mod_lt _ (by decide)⟩)

mutual

/-- A `serde_json` value, as its text has it. JavaScript holds what `Json.held` makes of it. -/
def ofValue : Value → Json
  | .null => .null
  | .bool b => .bool b
  | .number n => .number (ofNumber n)
  | .string s => .string s
  | .array items => .array (ofItems items)
  | .object fields => .object (ofFields fields)

/-- The items of an array. -/
def ofItems : List Value → List Json
  | [] => []
  | item :: rest => ofValue item :: ofItems rest

/-- The fields of an object. -/
def ofFields : List (String × Value) → List (String × Json)
  | [] => []
  | (key, value) :: rest => (key, ofValue value) :: ofFields rest

end

/-! ## The generator -/

/-- The value that is there, or an error. -/
def orError {α : Type} (value : Option α) (text : String) : Except String α := value.elim (.error text) .ok

/-- `value[key]`, which is null where there is no such field. -/
def index (value : Value) (key : String) : Value := (value.get key).getD .null

/-- `Value::as_u64`. -/
def asU64 : Value → Option UInt64
  | .number (.posInt n) => some n
  | _ => none

/-- `MethodContract`. -/
structure MethodContract where
  paramsSchema : Value
  policy : Value
  responseKey : Value
  resultSchema : Value
deriving DecidableEq

/-- `registry_names`. -/
def registryNames (registry : Value) (part : String) : Except String (List String) := do
  let items ← orError ((registry.get part).bind Value.asArray)
    s!"protocol registry section is missing: {part}"
  items.mapM fun item =>
    orError ((item.get "name").bind Value.asStr) s!"protocol registry name is invalid: {part}"

/-- The loop body of `method_contracts`. -/
def addMethod (contracts : Std.TreeMap String MethodContract) (method : Value) :
    Except String (Std.TreeMap String MethodContract) :=
  match method.get "params_schema", method.get "result_schema" with
  | some params, some result => do
    checkSchema (ofValue params)
    checkSchema (ofValue result)
    let name ← orError (index method "name").asStr "missing method name"
    return contracts.insert name ⟨params, index method "policy", index method "response_key", result⟩
  | _, _ => .ok contracts

/-- `method_contracts`. -/
def methodContracts (registry : Value) : Except String (Std.TreeMap String MethodContract) := do
  let methods ← orError (index registry "methods").asArray "methods must be an array"
  methods.foldlM addMethod ∅

/-- The key of an event. -/
def eventKey (stream event : String) : String := stream ++ ":" ++ event

/-- The inner loop body of `event_contracts`. -/
def addEvent (stream : Value) (events : Std.TreeMap String Value) (entry : Value) :
    Except String (Std.TreeMap String Value) :=
  match entry.get "data_schema" with
  | none => .ok events
  | some schema => do
    checkSchema (ofValue schema)
    let streamName ← orError (index stream "name").asStr "stream name"
    let eventName ← orError (index entry "name").asStr "event name"
    return events.insert (eventKey streamName eventName) schema

/-- The outer loop body of `event_contracts`. -/
def addStream (events : Std.TreeMap String Value) (stream : Value) : Except String (Std.TreeMap String Value) :=
  ((index stream "events").asArray.getD []).foldlM (addEvent stream) events

/-- `event_contracts`. -/
def eventContracts (registry : Value) : Except String (Std.TreeMap String Value) := do
  let streams ← orError (index registry "streams").asArray "streams must be an array"
  streams.foldlM addStream ∅

/-- `qml_identifier`. -/
def qmlIdentifier : List Char → Bool
  | [] => false
  | c :: rest => (c.isAlpha || c = '_') && rest.all fun c => c.isAlphanum || c = '_'

/-- What the declarations of a generated module evaluate to. -/
structure Generated where
  /-- The module that is imported for the validation. -/
  runtime : Option String
  protocol : String
  version : UInt64
  methods : List String
  streams : List String
  contracts : Std.TreeMap String MethodContract
  eventContracts : Std.TreeMap String Value

/-- The registry in a document. -/
def registryOf (value : Value) : Option Value := (value.get "registry").or (value.pointer ["data", "protocol"])

/-- `render`. -/
def render (value : Value) (runtimeImport : Option String) : Except String Generated := do
  let protocol ← orError (index value "protocol").asStr "protocol registry is missing protocol"
  let version ← orError (asU64 (index value "version")) "protocol registry is missing version"
  let registry ← orError (registryOf value) "protocol registry is missing registry data"
  let methods ← registryNames registry "methods"
  let streams ← registryNames registry "streams"
  let contracts ← methodContracts registry
  let events ← eventContracts registry
  let runtime := if contracts.isEmpty ∧ events.isEmpty then none else runtimeImport
  if (runtime.all fun path => (path.toList.splitOn '.').all qmlIdentifier) then
    return ⟨runtime, protocol, version, methods, streams, contracts, events⟩
  else .error "runtime module must be a QML module URI"

/-! ## The lookups -/

/-- `eventContracts[envelope.stream + ":" + envelope.event]`. What objects inherit has no colon in
its name. -/
def eventSchema (generated : Generated) (stream event : String) : Option Value :=
  generated.eventContracts[eventKey stream event]?

/-- `contracts[method]`, of a method that is there. An object literal takes a field `__proto__` as
what the object inherits from, and it is found as well. -/
def methodContract (generated : Generated) (method : String) : Option MethodContract :=
  generated.contracts[method]?

/-- `validateEvent`, with the calls and the regular expressions of `schemaError`. The data is what
JavaScript holds, and so is the schema. -/
def validateEvent (test : String → String → Bool) (calls : ℕ) (generated : Generated)
    (stream event : String) (data : Json) : Option String :=
  match eventSchema generated stream event with
  | some schema =>
    let schema := (ofValue schema).held
    if schema.truthy then schemaError test calls schema data else some ""
  | none => some ""

/-! ## What is declared -/

/-- An event with a schema in the registry of a document. -/
def DeclaresEvent (value : Value) (stream event : String) (schema : Value) : Prop :=
  ∃ registry streams declared entries entry, registryOf value = some registry ∧
    (index registry "streams").asArray = some streams ∧ declared ∈ streams ∧
    (index declared "name").asStr = some stream ∧ (index declared "events").asArray = some entries ∧
    entry ∈ entries ∧ (index entry "name").asStr = some event ∧ entry.get "data_schema" = some schema

/-- A method with both schemas in the registry of a document, with its contract. -/
def DeclaresMethod (value : Value) (name : String) (contract : MethodContract) : Prop :=
  ∃ registry methods method, registryOf value = some registry ∧
    (index registry "methods").asArray = some methods ∧ method ∈ methods ∧
    (index method "name").asStr = some name ∧ method.get "params_schema" = some contract.paramsSchema ∧
    method.get "result_schema" = some contract.resultSchema ∧
    contract.policy = index method "policy" ∧ contract.responseKey = index method "response_key"

/-- Every declared contract is found under its own name, and no event that was not declared. -/
structure Found (value : Value) (generated : Generated) : Prop where
  event : ∀ stream event schema, DeclaresEvent value stream event schema →
    eventSchema generated stream event = some schema
  undeclared : ∀ stream event, (∀ schema, ¬ DeclaresEvent value stream event schema) →
    eventSchema generated stream event = none
  method : ∀ name contract, DeclaresMethod value name contract →
    methodContract generated name = some contract

/-- No declared contract is in the way of another: one key has one schema, the other ways to read it
are declared, and one name has one contract. -/
structure Apart (value : Value) : Prop where
  schema : ∀ stream event schema stream' event' schema', DeclaresEvent value stream event schema →
    DeclaresEvent value stream' event' schema' → eventKey stream' event' = eventKey stream event →
    schema' = schema
  key : ∀ stream event schema stream' event', DeclaresEvent value stream event schema →
    eventKey stream' event' = eventKey stream event → ∃ schema', DeclaresEvent value stream' event' schema'
  contract : ∀ name contract contract', DeclaresMethod value name contract →
    DeclaresMethod value name contract' → contract' = contract

/-! ## What the maps hold -/

/-- How a map stands to one before it, where such entries were added. -/
structure Extends {V : Type} (before after : Std.TreeMap String V) (Adds : String → V → Prop) : Prop where
  /-- What is there was there or was added. -/
  origin : ∀ (k : String) (v : V), after[k]? = some v → before[k]? = some v ∨ Adds k v
  /-- What was there has its key. -/
  keeps : ∀ (k : String) (v : V), before[k]? = some v → ∃ v', after[k]? = some v'
  /-- What was added has its key. -/
  covers : ∀ (k : String) (v : V), Adds k v → ∃ v', after[k]? = some v'

namespace Extends

variable {V : Type} {before between after : Std.TreeMap String V} {Adds Adds' : String → V → Prop}

/-- Nothing is added. -/
theorem refl (hnone : ∀ k v, ¬ Adds k v) : Extends before before Adds where
  origin _ _ h := .inl h
  keeps _ v h := ⟨v, h⟩
  covers k v h := absurd h (hnone k v)

/-- One entry is added. -/
theorem insert {key : String} {value : V} (hadds : ∀ k v, Adds k v ↔ k = key ∧ v = value) :
    Extends before (before.insert key value) Adds := by
  have hget : ∀ k, (before.insert key value)[k]? = if key = k then some value else before[k]? := by
    intro k
    rw [Std.TreeMap.getElem?_insert]
    simp only [Std.LawfulEqCmp.compare_eq_iff_eq]
  refine ⟨fun k v h => ?_, fun k v h => ?_, fun k v h => ?_⟩
  · rw [hget] at h
    split at h
    · rename_i heq
      exact .inr ((hadds k v).mpr ⟨heq.symm, (Option.some.inj h).symm⟩)
    · exact .inl h
  · rw [hget]
    split
    · exact ⟨value, rfl⟩
    · exact ⟨v, h⟩
  · obtain ⟨rfl, -⟩ := (hadds k v).mp h
    exact ⟨value, by rw [hget, if_pos rfl]⟩

/-- One addition after the other. -/
theorem trans (h : Extends before between Adds) (h' : Extends between after Adds') :
    Extends before after fun k v => Adds k v ∨ Adds' k v := by
  refine ⟨fun k v hv => ?_, fun k v hv => ?_, fun k v hadds => ?_⟩
  · obtain hv | hadds := h'.origin k v hv
    · exact (h.origin k v hv).imp_right .inl
    · exact .inr (.inr hadds)
  · obtain ⟨v', hv'⟩ := h.keeps k v hv
    exact h'.keeps k v' hv'
  · obtain hadds | hadds := hadds
    · obtain ⟨v', hv'⟩ := h.covers k v hadds
      exact h'.keeps k v' hv'
    · exact h'.covers k v hadds

/-- The same entries are added, said in another way. -/
theorem congr (h : Extends before after Adds) (hsame : ∀ k v, Adds' k v ↔ Adds k v) :
    Extends before after Adds' where
  origin k v hv := (h.origin k v hv).imp_right (hsame k v).mpr
  keeps := h.keeps
  covers k v hadds := h.covers k v ((hsame k v).mp hadds)

/-- A loop adds what its items add. -/
theorem foldlM {α : Type} {f : Std.TreeMap String V → α → Except String (Std.TreeMap String V)}
    {Item : α → String → V → Prop}
    (hstep : ∀ before item after, f before item = .ok after → Extends before after (Item item))
    (items : List α) (h : items.foldlM f before = Except.ok after) :
    Extends before after fun k v => ∃ item ∈ items, Item item k v := by
  induction items generalizing before with
  | nil =>
    cases h
    exact refl (by simp)
  | cons item rest ih =>
    obtain ⟨between, hitem, hrest⟩ := Worklist.bind_eq_ok h
    refine ((hstep _ _ _ hitem).trans (ih hrest)).congr fun k v => ?_
    simp

end Extends

section Maps

variable {registry value stream entry method : Value}

/-- A value that is no error is there. -/
theorem orError_eq_ok {α : Type} {value : Option α} {text : String} {a : α}
    (h : orError value text = .ok a) : value = some a := by
  cases value with
  | none => cases h
  | some b => exact congrArg some (Except.ok.inj h)

/-- What an entry adds for a stream. -/
def EntryAdds (stream entry : Value) (k : String) (schema : Value) : Prop :=
  ∃ streamName eventName, (index stream "name").asStr = some streamName ∧
    (index entry "name").asStr = some eventName ∧ entry.get "data_schema" = some schema ∧
    k = eventKey streamName eventName

/-- An entry adds its event, if it has a schema. -/
theorem extends_addEvent {before after : Std.TreeMap String Value}
    (h : addEvent stream before entry = .ok after) :
    Extends before after (EntryAdds stream entry) := by
  unfold addEvent at h
  split at h
  -- An entry without a schema adds nothing.
  · rename_i hnone
    cases h
    refine .refl fun k schema hadds => ?_
    obtain ⟨_, _, -, -, hsome, -⟩ := hadds
    rw [hnone] at hsome
    cases hsome
  · rename_i schema hschema
    -- The schema is checked and the two names are read, and then it is put under their key.
    obtain ⟨-, -, h⟩ := Worklist.bind_eq_ok h
    obtain ⟨streamName, hstream, h⟩ := Worklist.bind_eq_ok h
    obtain ⟨eventName, hevent, h⟩ := Worklist.bind_eq_ok h
    have hstream := orError_eq_ok hstream
    have hevent := orError_eq_ok hevent
    cases h
    refine .insert fun k v => ⟨fun hadds => ?_, fun hadds => ?_⟩
    · obtain ⟨s, e, hs, he, hv, hk⟩ := hadds
      rw [hstream, Option.some.injEq] at hs
      rw [hevent, Option.some.injEq] at he
      rw [hschema, Option.some.injEq] at hv
      exact ⟨by rw [hk, hs, he], hv.symm⟩
    · obtain ⟨rfl, rfl⟩ := hadds
      exact ⟨streamName, eventName, hstream, hevent, hschema, rfl⟩

/-- The entries of a stream. -/
theorem extends_addStream {before after : Std.TreeMap String Value}
    (h : addStream before stream = .ok after) :
    Extends before after fun k schema =>
      ∃ entry ∈ (index stream "events").asArray.getD [], EntryAdds stream entry k schema :=
  Extends.foldlM (fun _ _ _ hentry => extends_addEvent hentry) _ h

/-- What is found for a key is declared under it, and what is declared has its key. -/
theorem eventContracts_spec {events : Std.TreeMap String Value}
    (hregistry : registryOf value = some registry)
    (h : eventContracts registry = .ok events) :
    (∀ (k : String) schema, events[k]? = some schema →
      ∃ stream event, DeclaresEvent value stream event schema ∧ k = eventKey stream event) ∧
    ∀ stream event schema, DeclaresEvent value stream event schema →
      ∃ schema', events[eventKey stream event]? = some schema' := by
  unfold eventContracts at h
  obtain ⟨streams, hstreams, h⟩ := Worklist.bind_eq_ok h
  have hstreams := orError_eq_ok hstreams
  -- The loop over the streams only adds, each stream the events of its entries.
  have hextends := Extends.foldlM (fun _ _ _ hstream => extends_addStream hstream) streams h
  refine ⟨fun k schema hk => ?_, fun stream event schema hdeclared => ?_⟩
  -- The table starts empty, so what it has some stream has added.
  · obtain hempty | ⟨stream, hstream, entry, hentry, s, e, hs, he, hschema, rfl⟩ :=
      hextends.origin k schema hk
    · rw [Std.TreeMap.getElem?_emptyc] at hempty
      cases hempty
    · cases hentries : (index stream "events").asArray with
      | none =>
        rw [hentries] at hentry
        cases hentry
      | some entries =>
        rw [hentries] at hentry
        exact ⟨s, e, ⟨registry, streams, stream, entries, entry, hregistry, hstreams, hstream, hs,
          hentries,
          hentry, he, hschema⟩, rfl⟩
  -- The registry read is the one the event is declared in.
  · obtain ⟨_, streams', declared, entries, entry, hregistry', hstreams', hmem, hs, hentries,
      hentry, he,
      hschema⟩ := hdeclared
    rw [hregistry, Option.some.injEq] at hregistry'
    subst hregistry'
    rw [hstreams, Option.some.injEq] at hstreams'
    subst hstreams'
    refine hextends.covers _ schema ⟨declared, hmem, entry, ?_, stream, event, hs, he, hschema, rfl⟩
    rw [hentries]
    exact hentry

/-- A method adds its contract, if it has both schemas. -/
theorem extends_addMethod {before after : Std.TreeMap String MethodContract}
    (h : addMethod before method = .ok after) :
    Extends before after fun name (contract : MethodContract) =>
      (index method "name").asStr = some name ∧
        method.get "params_schema" = some contract.paramsSchema ∧
        method.get "result_schema" = some contract.resultSchema ∧
        contract.policy = index method "policy" ∧
        contract.responseKey = index method "response_key" := by
  unfold addMethod at h
  split at h
  -- Both schemas are checked and the name is read, and then the contract is put under it.
  · rename_i params result hparams hresult
    obtain ⟨-, -, h⟩ := Worklist.bind_eq_ok h
    obtain ⟨-, -, h⟩ := Worklist.bind_eq_ok h
    obtain ⟨name, hname, h⟩ := Worklist.bind_eq_ok h
    have hname := orError_eq_ok hname
    cases h
    refine .insert fun k contract => ⟨fun hadds => ?_, fun hadds => ?_⟩
    · obtain ⟨hk, hp, hr, hpolicy, hkey⟩ := hadds
      rw [hname, Option.some.injEq] at hk
      rw [hparams, Option.some.injEq] at hp
      rw [hresult, Option.some.injEq] at hr
      refine ⟨hk.symm, ?_⟩
      cases contract
      simp_all
    · obtain ⟨rfl, rfl⟩ := hadds
      exact ⟨hname, hparams, hresult, rfl, rfl⟩
  -- Without one of the schemas nothing is added.
  · rename_i hnone
    cases h
    refine .refl fun k contract hadds => ?_
    exact hnone _ _ hadds.2.1 hadds.2.2.1

/-- So it is with the contracts of methods, under their names. -/
theorem methodContracts_spec {contracts : Std.TreeMap String MethodContract}
    (hregistry : registryOf value = some registry) (h : methodContracts registry = .ok contracts) :
    (∀ (k : String) contract, contracts[k]? = some contract → DeclaresMethod value k contract) ∧
    ∀ name contract, DeclaresMethod value name contract →
      ∃ contract', contracts[name]? = some contract' := by
  unfold methodContracts at h
  obtain ⟨methods, hmethods, h⟩ := Worklist.bind_eq_ok h
  have hmethods := orError_eq_ok hmethods
  have hextends := Extends.foldlM (fun _ _ _ hmethod => extends_addMethod hmethod) methods h
  refine ⟨fun k contract hk => ?_, fun name contract hdeclared => ?_⟩
  · obtain hempty | ⟨method, hmethod, hadds⟩ := hextends.origin k contract hk
    · rw [Std.TreeMap.getElem?_emptyc] at hempty
      cases hempty
    · exact ⟨registry, methods, method, hregistry, hmethods, hmethod, hadds⟩
  · obtain ⟨_, methods', method, hregistry', hmethods', hmem, hadds⟩ := hdeclared
    rw [hregistry, Option.some.injEq] at hregistry'
    subst hregistry'
    rw [hmethods, Option.some.injEq] at hmethods'
    subst hmethods'
    exact hextends.covers name contract ⟨method, hmem, hadds⟩

/-- A document that is rendered has a registry whose contracts are those of the module. -/
theorem of_render {generated : Generated} {runtime : Option String}
    (h : render value runtime = .ok generated) : ∃ registry, registryOf value = some registry ∧
      methodContracts registry = .ok generated.contracts ∧
      eventContracts registry = .ok generated.eventContracts := by
  unfold render at h
  obtain ⟨protocol, -, h⟩ := Worklist.bind_eq_ok h
  obtain ⟨version, -, h⟩ := Worklist.bind_eq_ok h
  obtain ⟨registry, hregistry, h⟩ := Worklist.bind_eq_ok h
  obtain ⟨methods, -, h⟩ := Worklist.bind_eq_ok h
  obtain ⟨streams, -, h⟩ := Worklist.bind_eq_ok h
  obtain ⟨contracts, hcontracts, h⟩ := Worklist.bind_eq_ok h
  obtain ⟨events, hevents, h⟩ := Worklist.bind_eq_ok h
  simp only [pure, Except.pure] at h
  have hmaps : generated.contracts = contracts ∧ generated.eventContracts = events := by
    split at h <;> split at h <;> cases h <;> exact ⟨rfl, rfl⟩
  rw [hmaps.1, hmaps.2]
  exact ⟨registry, orError_eq_ok hregistry, hcontracts, hevents⟩

end Maps

/-- Every contract is found under its own name if and only if none is in the way of another. -/
theorem contracts_found_iff {value : Value} {runtime : Option String} {generated : Generated}
    (h : render value runtime = .ok generated) : Found value generated ↔ Apart value := by
  -- Both tables: what is found is declared, and for what is declared something is found.
  obtain ⟨registry, hregistry, hcontracts, hevents⟩ := of_render h
  obtain ⟨heventOrigin, heventCovers⟩ := eventContracts_spec hregistry hevents
  obtain ⟨hmethodOrigin, hmethodCovers⟩ := methodContracts_spec hregistry hcontracts
  constructor
  · intro hfound
    refine ⟨fun s e schema s' e' schema' hdeclared hdeclared' hkey => ?_,
      fun s e schema s' e' hdeclared hkey => ?_,
        fun name contract contract' hdeclared hdeclared' => ?_⟩
    -- Two events under one key are found as one.
    · have hown := hfound.event s e schema hdeclared
      have hown' := hfound.event s' e' schema' hdeclared'
      unfold eventSchema at hown hown'
      rw [hkey, hown] at hown'
      exact (Option.some.inj hown').symm
    -- An event that is not declared would be found under the key of one that is.
    · by_contra hnone
      rw [not_exists] at hnone
      have hown := hfound.event s e schema hdeclared
      have hnothing := hfound.undeclared s' e' hnone
      unfold eventSchema at hown hnothing
      rw [hkey, hown] at hnothing
      cases hnothing
    -- The name of a method is its key, so two contracts of one name are found as one.
    · have hown := hfound.method name contract hdeclared
      have hown' := hfound.method name contract' hdeclared'
      rw [hown] at hown'
      exact (Option.some.inj hown').symm
  · intro hapart
    refine ⟨fun s e schema hdeclared => ?_, fun s e hnone => ?_, fun name contract hdeclared => ?_⟩
    -- What is found under the key is of an event that is declared, and so is its own.
    · obtain ⟨schema', hsome⟩ := heventCovers s e schema hdeclared
      obtain ⟨s', e', hdeclared', hkey⟩ := heventOrigin _ schema' hsome
      rw [hapart.schema s e schema s' e' schema' hdeclared hdeclared' hkey.symm] at hsome
      exact hsome
    -- An event found under a key that is declared would be declared itself.
    · cases hsome : eventSchema generated s e with
      | none => rfl
      | some schema =>
        obtain ⟨s', e', hdeclared', hkey⟩ := heventOrigin _ schema hsome
        obtain ⟨schema', hdeclared⟩ := hapart.key s' e' schema s e hdeclared' hkey
        exact absurd hdeclared (hnone schema')
    -- The contract found is one of this name, and there is only one.
    · obtain ⟨contract', hsome⟩ := hmethodCovers name contract hdeclared
      rw [hapart.contract name contract contract' hdeclared
        (hmethodOrigin name contract' hsome)] at hsome
      exact hsome

/-- A stream with one event. -/
def oneEvent (stream event : String) (schema : Value) : Value :=
  .object [("events", .array [.object [("data_schema", schema), ("name", .string event)]]),
    ("name", .string stream)]

/-- The event `b:c` of the stream `a`, and the event `c` of the stream `a:b`. -/
def colonRegistry : Value :=
  .object [("protocol", .string "p"),
    ("registry", .object [("methods", .array []),
      ("streams", .array [oneEvent "a" "b:c" (.bool true), oneEvent "a:b" "c" (.bool false)])]),
    ("version", .number (.posInt 1))]

/-- The module has the schema of the second event under the key of both. -/
theorem render_colonRegistry : ∃ generated, render colonRegistry none = .ok generated ∧
    eventSchema generated "a" "b:c" = some (.bool false) := by
  have hrun : (render colonRegistry none).map (eventSchema · "a" "b:c") =
      .ok (some (.bool false)) := by
    decide +kernel
  cases hrender : render colonRegistry none with
  | error e =>
    rw [hrender] at hrun
    cases hrun
  | ok generated =>
    rw [hrender] at hrun
    exact ⟨generated, rfl, Except.ok.inj hrun⟩

/-- The registry with the two events is decided. -/
theorem contracts_found_iff_colon : ∃ generated, render colonRegistry none = .ok generated ∧
    (Found colonRegistry generated ↔ Apart colonRegistry) := by
  obtain ⟨generated, hrender, -⟩ := render_colonRegistry
  exact ⟨generated, hrender, contracts_found_iff hrender⟩

/-- The second event is found under the names of the first. -/
theorem event_overwritten : ∃ generated, render colonRegistry none = .ok generated ∧
    DeclaresEvent colonRegistry "a" "b:c" (.bool true) ∧
    eventSchema generated "a" "b:c" = some (.bool false) ∧ ¬ Found colonRegistry generated := by
  obtain ⟨generated, hrender, hother⟩ := render_colonRegistry
  have hdeclared : DeclaresEvent colonRegistry "a" "b:c" (.bool true) :=
    ⟨_, _, _, _, _, rfl, rfl, List.mem_cons_self .., rfl, rfl, List.mem_cons_self .., rfl, rfl⟩
  refine ⟨generated, hrender, hdeclared, hother, fun hfound => ?_⟩
  have hown := hfound.event "a" "b:c" (.bool true) hdeclared
  rw [hother, Option.some.injEq, Value.bool.injEq] at hown
  cases hown

end DaemonFramework.Protocol
