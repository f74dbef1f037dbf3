import BsvCost.Accounts

/-!
# The model file: `load_model`

`CostEstimator::Impl::load_model` once `file >> model` has parsed the file: it reads the profile
id, the two constants and one `OpcodeCostModel` per entry of `opcodes`, each with the defaults
the source gives, and stores an entry under the opcode its name maps to. Opening and parsing the
file are left out: the parsed document is a `Json` value, and the `nlohmann::json` operations
the loader calls (`contains`, `value`, `operator[]`, `items`, `get`) are modelled as the library
defines them. A `type_error` they throw ends the load: `none`.

An entry whose `model` names none of the four formula types sets nothing: its coefficients keep
their `0` and the enum `type` is left uninitialised, here the loader's parameter `uninit`.

* `loadModel_saveModel`: a model written in the file format (`saveModel`) loads back with its
  constants and the price of every opcode the loader names; every other opcode is priced at the
  fallback `100`.
* `estimate_loadModel_saveModel`: so a model priced only at those opcodes loads back into one
  that gives every estimate the original gives (`estimate_eq_of_prices`: `estimate` reads a
  model only through its constants and prices).
* `loadModel_unnamed`: an opcode the loader does not name keeps the fallback price, whatever the
  file lists for it.
-/

namespace Bsv.Cost

/-- A parsed JSON document. An object's keys are distinct, as in the library's `std::map`. -/
inductive Json
  | null
  | bool (b : Bool)
  | num (x : ℚ)
  | str (s : String)
  | arr (xs : List Json)
  | obj (kvs : List (String × Json))
  deriving Repr

namespace Json

/-- `j.contains(key)`: `false` unless `j` is an object. -/
def contains : Json → String → Bool
  | obj kvs, key => kvs.any (·.1 == key)
  | _, _ => false

/-- `j[key]` on an object holding `key`. -/
def find? : Json → String → Option Json
  | obj kvs, key => (kvs.find? (·.1 == key)).map (·.2)
  | _, _ => none

/-- `get<double>()`: a number, or a boolean as `0` or `1`; any other value throws. -/
def getDouble : Json → Option ℚ
  | num x => some x
  | bool b => some (if b then 1 else 0)
  | _ => none

/-- `get<std::string>()`. -/
def getString : Json → Option String
  | str s => some s
  | _ => none

/-- `j.value(key, default)`: the value under `key` converted by `get`, or `default` where `key`
is absent; it throws where `j` is not an object or the value does not convert. -/
def value {α : Type} (get : Json → Option α) (j : Json) (key : String) (default : α) :
    Option α :=
  match j with
  | obj kvs =>
    match kvs.find? (·.1 == key) with
    | some kv => get kv.2
    | none => some default
  | _ => none

/-- `j.items()`: an object's entries, an array's elements under their indices, nothing for
`null`, and any other value once under the empty key. -/
def items : Json → List (String × Json)
  | obj kvs => kvs
  | arr xs => xs.enum.map fun ix => (toString ix.1, ix.2)
  | null => []
  | j => [("", j)]

end Json

/-! ## The loader -/

/-- The names `load_model` maps to opcodes, in the order of its `if` chain. -/
def opcodeNames : List (String × OpCode) :=
  [("OP_DUP", .opDup), ("OP_SWAP", .opSwap), ("OP_CAT", .opCat), ("OP_SPLIT", .opSplit),
    ("OP_SHA256", .opSha256), ("OP_HASH256", .opHash256), ("OP_CHECKSIG", .opChecksig),
    ("OP_CHECKMULTISIG", .opCheckmultisig)]

/-- The opcode of an entry's name: the first `opcode_name == ...` of the chain that holds. -/
def opcodeOfName (name : String) : Option OpCode :=
  List.lookup name opcodeNames

/-- The `OpcodeCostModel` that `load_model` builds from one entry of `opcodes`, with the
source's defaults. An unrecognised `model` leaves every coefficient `0` and `type`
uninitialised; the model takes that value to be one of the four enumerators, `uninit`. A value
outside them, which `calculate_opcode_cost` would send to its last `return 100`, is not
modelled. -/
def loadOpcodeModel (uninit : ModelType) (data : Json) : Option OpcodeCostModel := do
  let modelType ← data.value Json.getString "model" "constant"
  if modelType = "constant" then
    let c0 ← data.value Json.getDouble "c0" 0
    pure { type := .constant, c0 }
  else if modelType = "linear" then
    let c0 ← data.value Json.getDouble "c0" 0
    let c1 ← data.value Json.getDouble "c1" 0
    let cAlloc ← data.value Json.getDouble "c_alloc" 0
    pure { type := .linear, c0, c1, cAlloc }
  else if modelType = "signature" then
    let cEcdsa ← data.value Json.getDouble "c_ecdsa" 85000
    let cPreimagePerByte ← data.value Json.getDouble "c_preimage_per_byte" (5 / 2)
    pure { type := .signature, cEcdsa, cPreimagePerByte }
  else if modelType = "multisig" then
    let cEcdsa ← data.value Json.getDouble "c_ecdsa" 85000
    let cPreimagePerByte ← data.value Json.getDouble "c_preimage_per_byte" (5 / 2)
    let cKeyscan ← data.value Json.getDouble "c_keyscan" 150
    let cSetup ← data.value Json.getDouble "c_setup" 300
    pure { type := .multisig, cEcdsa, cPreimagePerByte, cKeyscan, cSetup }
  else pure { type := uninit }

/-- One pass of the loop over `model["opcodes"].items()`: build the entry's model, then store it
under the opcode its name maps to, if any. -/
def loadEntry (uninit : ModelType) (costs : OpCode → Option OpcodeCostModel)
    (entry : String × Json) : Option (OpCode → Option OpcodeCostModel) := do
  let costModel ← loadOpcodeModel uninit entry.2
  pure (match opcodeOfName entry.1 with
    | some op => fun o => if o = op then some costModel else costs o
    | none => costs)

/-- The constants: `c_dispatch` and `c_parse_per_byte` from `constants` where it is present,
else the members' initial values. -/
def loadConstants (model : Json) : Option (ℚ × ℚ) :=
  if model.contains "constants" then do
    let constants ← model.find? "constants"
    let cDispatch ← constants.value Json.getDouble "c_dispatch" 5
    let cParsePerByte ← constants.value Json.getDouble "c_parse_per_byte" (4 / 5)
    pure (cDispatch, cParsePerByte)
  else pure (5, 4 / 5)

/-- The loop over `model["opcodes"].items()` where `opcodes` is present, into an empty
`opcode_costs`. -/
def loadOpcodes (uninit : ModelType) (model : Json) :
    Option (OpCode → Option OpcodeCostModel) :=
  if model.contains "opcodes" then do
    let opcodes ← model.find? "opcodes"
    opcodes.items.foldlM (loadEntry uninit) fun _ => none
  else pure fun _ => none

/-- `CostEstimator::Impl::load_model` on the parsed file: the profile id and the model state it
assigns, or `none` where a `type_error` escapes. -/
def loadModel (uninit : ModelType) (model : Json) : Option (String × CostModel) := do
  let profileId ← model.value Json.getString "profile_id" "unknown"
  let (cDispatch, cParsePerByte) ← loadConstants model
  let opcodeCosts ← loadOpcodes uninit model
  pure (profileId, { cDispatch, cParsePerByte, opcodeCosts })

/-- An empty file loads to the estimator's defaults. -/
example : loadModel .constant (.obj []) = some ("unknown", {}) := rfl

theorem opcodeOfName_mem {name : String} {op : OpCode} (h : opcodeOfName name = some op) :
    op ∈ opcodeNames.map Prod.snd := by
  obtain ⟨l₁, l₂, hl, -⟩ := List.lookup_eq_some_iff.1 h
  exact List.mem_map.2 ⟨(name, op), hl ▸ List.mem_append_right _ (.head _), rfl⟩

/-! ## Opcodes the loader does not name -/

/-- The loop over `items()` stores entries only under the opcodes it names. -/
theorem foldlM_loadEntry_unnamed (uninit : ModelType) {op : OpCode}
    (hop : op ∉ opcodeNames.map Prod.snd) :
    ∀ (items : List (String × Json)) {costs costs' : OpCode → Option OpcodeCostModel},
      items.foldlM (loadEntry uninit) costs = some costs' → costs op = none → costs' op = none
  | [], _, _, h, hc => by cases h; exact hc
  | entry :: items, costs, costs', h, hc => by
    rw [List.foldlM_cons] at h
    obtain ⟨c₁, h₁, h₂⟩ := Option.bind_eq_some.1 h
    refine foldlM_loadEntry_unnamed uninit hop items h₂ ?_
    obtain ⟨costModel, -, h₁⟩ := Option.bind_eq_some.1 h₁
    cases hname : opcodeOfName entry.1 with
    | none => simp only [hname, Option.pure_def, Option.some.injEq] at h₁; exact h₁ ▸ hc
    | some op' =>
      simp only [hname, Option.pure_def, Option.some.injEq] at h₁
      have hne : op ≠ op' := fun he => hop (he ▸ opcodeOfName_mem hname)
      subst h₁
      exact (if_neg hne).trans hc

/-- Whatever a model file lists, every opcode the loader does not name is priced at the
fallback `100`. -/
theorem loadModel_unnamed {uninit : ModelType} {model : Json} {profileId : String}
    {M : CostModel} (h : loadModel uninit model = some (profileId, M)) {op : OpCode}
    (hop : op ∉ opcodeNames.map Prod.snd) (params : List Nat) :
    calculateOpcodeCost M op params = 100 := by
  refine calculateOpcodeCost_of_none ?_ params
  obtain ⟨p, -, h⟩ := Option.bind_eq_some.1 h
  obtain ⟨⟨cd, cp⟩, -, h⟩ := Option.bind_eq_some.1 h
  obtain ⟨costs, hcosts, h⟩ := Option.bind_eq_some.1 h
  simp only [Option.pure_def, Option.some.injEq, Prod.mk.injEq] at h
  obtain ⟨-, rfl⟩ := h
  unfold loadOpcodes at hcosts
  split at hcosts
  · obtain ⟨opcodes, -, hf⟩ := Option.bind_eq_some.1 hcosts
    exact foldlM_loadEntry_unnamed uninit hop _ hf rfl
  · cases hcosts; rfl

/-- A file listing `OP_PICK`: it loads, and `OP_PICK` keeps the fallback price. -/
theorem loadModel_unnamed_pick :
    loadModel .constant (.obj [("opcodes", .obj [("OP_PICK",
        .obj [("model", .str "constant"), ("c0", .num 7)])])]) = some ("unknown", {}) ∧
      OpCode.opPick ∉ opcodeNames.map Prod.snd ∧ calculateOpcodeCost {} .opPick [] = 100 :=
  have h : loadModel .constant (.obj [("opcodes", .obj [("OP_PICK",
      .obj [("model", .str "constant"), ("c0", .num 7)])])]) = some ("unknown", {}) := rfl
  have hop : OpCode.opPick ∉ opcodeNames.map Prod.snd := by decide
  ⟨h, hop, loadModel_unnamed h hop []⟩

/-! ## Writing a model and loading it back -/

/-- A formula with only the coefficients `load_model` reads for its type; the others `0`. -/
def OpcodeCostModel.normalize (m : OpcodeCostModel) : OpcodeCostModel :=
  match m.type with
  | .constant => { type := .constant, c0 := m.c0 }
  | .linear => { type := .linear, c0 := m.c0, c1 := m.c1, cAlloc := m.cAlloc }
  | .signature =>
    { type := .signature, cEcdsa := m.cEcdsa, cPreimagePerByte := m.cPreimagePerByte }
  | .multisig =>
    { type := .multisig, cEcdsa := m.cEcdsa, cPreimagePerByte := m.cPreimagePerByte,
      cKeyscan := m.cKeyscan, cSetup := m.cSetup }

/-- A formula as an entry of the model file: its type's name and the coefficients read for it. -/
def OpcodeCostModel.toJson (m : OpcodeCostModel) : Json :=
  match m.type with
  | .constant => .obj [("model", .str "constant"), ("c0", .num m.c0)]
  | .linear =>
    .obj [("model", .str "linear"), ("c0", .num m.c0), ("c1", .num m.c1),
      ("c_alloc", .num m.cAlloc)]
  | .signature =>
    .obj [("model", .str "signature"), ("c_ecdsa", .num m.cEcdsa),
      ("c_preimage_per_byte", .num m.cPreimagePerByte)]
  | .multisig =>
    .obj [("model", .str "multisig"), ("c_ecdsa", .num m.cEcdsa),
      ("c_preimage_per_byte", .num m.cPreimagePerByte), ("c_keyscan", .num m.cKeyscan),
      ("c_setup", .num m.cSetup)]

/-- A model as a model file: its profile id, its constants, and its entries under the names
`load_model` maps. -/
def saveModel (profileId : String) (M : CostModel) : Json :=
  .obj [("profile_id", .str profileId),
    ("constants", .obj [("c_dispatch", .num M.cDispatch),
      ("c_parse_per_byte", .num M.cParsePerByte)]),
    ("opcodes", .obj (opcodeNames.filterMap fun p =>
      (M.opcodeCosts p.2).map fun m => (p.1, m.toJson)))]

theorem loadOpcodeModel_toJson (uninit : ModelType) (m : OpcodeCostModel) :
    loadOpcodeModel uninit m.toJson = some m.normalize := by
  rcases m with ⟨_ | _ | _ | _, c0, c1, cEcdsa, cPreimagePerByte, cKeyscan, cSetup, cAlloc⟩ <;>
    rfl

/-- Only the coefficients read for a formula's type enter its price. -/
theorem calculateOpcodeCost_map_normalize {M M' : CostModel} {op : OpCode}
    (h : M'.opcodeCosts op = (M.opcodeCosts op).map OpcodeCostModel.normalize)
    (params : List Nat) : calculateOpcodeCost M' op params = calculateOpcodeCost M op params := by
  unfold calculateOpcodeCost
  rw [h]
  rcases M.opcodeCosts op with _ | ⟨⟨_ | _ | _ | _, _, _, _, _, _, _, _⟩⟩ <;> rfl

/-- The loop over the written entries stores each formula, normalised, under its opcode. -/
theorem foldlM_loadEntry_save (uninit : ModelType) (M : CostModel) :
    ∀ (L : List (String × OpCode)) (costs : OpCode → Option OpcodeCostModel),
      (∀ p ∈ L, opcodeOfName p.1 = some p.2) →
      (L.filterMap fun p => (M.opcodeCosts p.2).map fun m => (p.1, m.toJson)).foldlM
          (loadEntry uninit) costs =
        some fun o => if o ∈ L.map Prod.snd then
          ((M.opcodeCosts o).map OpcodeCostModel.normalize).or (costs o) else costs o
  | [], costs, _ => by simp
  | (name, op) :: L, costs, h => by
    have ih := foldlM_loadEntry_save uninit M L
    have hL : ∀ p ∈ L, opcodeOfName p.1 = some p.2 := fun p hp => h p (.tail _ hp)
    cases hm : M.opcodeCosts op with
    | none =>
      simp only [List.filterMap_cons, hm, Option.map_none', ih costs hL]
      congr 1; funext o
      by_cases ho : o = op
      · subst ho; simp [hm]
      · simp only [List.map_cons, List.mem_cons, ho, false_or]
    | some m =>
      have hname : opcodeOfName name = some op := h _ (.head _)
      simp only [List.filterMap_cons, hm, Option.map_some', List.foldlM_cons, loadEntry,
        loadOpcodeModel_toJson, hname, Option.pure_def, Option.bind_eq_bind, Option.some_bind,
        ih _ hL]
      congr 1; funext o
      by_cases ho : o = op
      · subst ho; simp [hm]
      · simp only [List.map_cons, List.mem_cons, ho, false_or, if_false]

theorem opcodeOfName_opcodeNames : ∀ p ∈ opcodeNames, opcodeOfName p.1 = some p.2 := by
  decide

/-- A written model loads back with its constants, and with each formula the loader names,
normalised. -/
theorem loadModel_saveModel_eq (uninit : ModelType) (profileId : String) (M : CostModel) :
    loadModel uninit (saveModel profileId M) = some (profileId,
      { cDispatch := M.cDispatch, cParsePerByte := M.cParsePerByte,
        opcodeCosts := fun o => if o ∈ opcodeNames.map Prod.snd then
          (M.opcodeCosts o).map OpcodeCostModel.normalize else none }) := by
  simp [loadModel, loadConstants, loadOpcodes, saveModel, Json.value, Json.contains, Json.find?,
    Json.items, Json.getString, Json.getDouble,
    foldlM_loadEntry_save uninit M _ _ opcodeOfName_opcodeNames]

/-- The round trip through the model file: a written model loads back with its profile id, its
constants, and the price of every opcode the loader names; every other opcode is priced at the
fallback. -/
theorem loadModel_saveModel (uninit : ModelType) (profileId : String) (M : CostModel) :
    ∃ M', loadModel uninit (saveModel profileId M) = some (profileId, M') ∧
      M'.cDispatch = M.cDispatch ∧ M'.cParsePerByte = M.cParsePerByte ∧
      ∀ op params, calculateOpcodeCost M' op params =
        if op ∈ opcodeNames.map Prod.snd then calculateOpcodeCost M op params else 100 := by
  refine ⟨_, loadModel_saveModel_eq uninit profileId M, rfl, rfl, fun op params => ?_⟩
  split_ifs with hop
  · exact calculateOpcodeCost_map_normalize (if_pos hop) params
  · exact calculateOpcodeCost_of_none (if_neg hop) params

/-! ## What `estimate` reads of a model -/

theorem LedgerRel.eq {st₁ st₂ : ExecState} (h : LedgerRel (· = ·) (· = ·) st₁ st₂) :
    st₂ = st₁ := by
  obtain ⟨T, ⟨_, _, _, _, _, _, _⟩, rfl, rfl, ⟨rfl, rfl, rfl, rfl, rfl, rfl, rfl⟩⟩ := h
  rfl

/-- `estimate` reads a model only through `c_dispatch`, `c_parse_per_byte` and its prices. -/
theorem estimate_eq_of_prices {M₁ M₂ : CostModel} (hd : M₁.cDispatch = M₂.cDispatch)
    (hp : M₁.cParsePerByte = M₂.cParsePerByte)
    (hc : ∀ op params, calculateOpcodeCost M₁ op params = calculateOpcodeCost M₂ op params)
    (unlockingScript lockingScript : Script) (tx : Transaction) (inputIndex : Nat)
    (limits : EstimatorLimits) :
    estimate M₁ unlockingScript lockingScript tx inputIndex limits =
      estimate M₂ unlockingScript lockingScript tx inputIndex limits := by
  have hr : ChargeCompat M₁ M₂ (· = ·) :=
    ⟨fun h => by rw [h, hd], fun op params h => by rw [h, hc], fun h => by rw [h]⟩
  unfold estimate
  by_cases hs : limits.maxScriptSize.toNat < (unlockingScript ++ lockingScript).length
  · rw [run_of_lt hs, run_of_lt hs]
  · obtain ⟨r₁, r₂, h₁, h₂, hrel⟩ := loop_ledgerRel tx inputIndex limits hr hr
      (unlockingScript ++ lockingScript).length
      (start_ledgerRel M₁ M₂ _ _ (by rw [hp]) (by rw [hp]) rfl)
    rw [run_eq_loop _ _ _ (not_lt.1 hs), run_eq_loop _ _ _ (not_lt.1 hs), h₁, h₂, hrel.eq]

/-- A model priced only at the opcodes `load_model` names, written to a model file, loads back
into a model that gives every estimate the original gives. -/
theorem estimate_loadModel_saveModel (uninit : ModelType) (profileId : String) {M : CostModel}
    (hM : ∀ op, (M.opcodeCosts op).isSome → op ∈ opcodeNames.map Prod.snd) :
    ∃ M', loadModel uninit (saveModel profileId M) = some (profileId, M') ∧
      ∀ unlockingScript lockingScript tx inputIndex limits,
        estimate M' unlockingScript lockingScript tx inputIndex limits =
          estimate M unlockingScript lockingScript tx inputIndex limits := by
  refine ⟨_, loadModel_saveModel_eq uninit profileId M, estimate_eq_of_prices rfl rfl ?_⟩
  intro op params
  by_cases hop : op ∈ opcodeNames.map Prod.snd
  · exact calculateOpcodeCost_map_normalize (if_pos hop) params
  · have hnone : M.opcodeCosts op = none :=
      Option.not_isSome_iff_eq_none.1 fun h => hop (hM op h)
    rw [calculateOpcodeCost_of_none (if_neg hop), calculateOpcodeCost_of_none hnone]

theorem estimate_loadModel_saveModel_checksig :
    (∀ op, (checksigModel.opcodeCosts op).isSome → op ∈ opcodeNames.map Prod.snd) ∧
      ∃ M', loadModel .constant (saveModel "unknown" checksigModel) = some ("unknown", M') ∧
        ∀ unlockingScript lockingScript tx inputIndex limits,
          estimate M' unlockingScript lockingScript tx inputIndex limits =
            estimate checksigModel unlockingScript lockingScript tx inputIndex limits := by
  have hM : ∀ op, (checksigModel.opcodeCosts op).isSome → op ∈ opcodeNames.map Prod.snd := by
    intro op h
    by_cases hc : op = OpCode.opChecksig
    · subst hc; decide
    · simp [checksigModel, hc] at h
  exact ⟨hM, estimate_loadModel_saveModel .constant "unknown" hM⟩

end Bsv.Cost
