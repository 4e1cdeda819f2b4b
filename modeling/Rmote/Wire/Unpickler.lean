import Rmote.Wire.Decode

/-!
# What a pickle may name

A pickle is a straight program: it asks its unpickler for globals by module and name, and it
calls what it was given. An endpoint that accepts code runs any pickle. One that does not reads
the opcodes first, refuses those that can pass the unpickler by, and resolves a name only in the
tables of safe, registered and allowed globals, where the function that loads a tool is replaced
by one that finds the tools that are there.

`acts` records what decoding did: the globals that it resolved, the sources that it installed
and the tools that it loaded. A Python value is the pickle that it came from.
-/

namespace Rmote

/-- A Python object that a pickle can name. -/
inductive Global (α : Type) where
  | toolFromDict
  | existingToolFromDict
  | other (object : α)

/-- A mapping from module and name to globals. -/
abbrev Globals (α : Type) := String → String → Option (Global α)

/-- A mapping whose globals are safe to call with hostile arguments. The function that executes
the sources in its argument is none of them. -/
structure SafeGlobals (α : Type) where
  table : Globals α
  safe : ∀ module name, table module name ≠ some .toolFromDict

/-- The definition of a tool: whether it brings sources, and the names that it gives. -/
structure ToolDefinition where
  source : Bool
  sources : Bool
  dependencies : Bool
  module : Option String
  qualname : Option String
  name : Option String
  deriving DecidableEq

/-- What a pickle passes to a callable. -/
inductive Argument where
  | definition (data : ToolDefinition)
  | other
  deriving DecidableEq

/-- The opcodes that concern an unpickler. `reduce` calls one of the globals that the pickle
obtained before, by its place among them. -/
inductive Opcode where
  | global (module name : String)
  | ext1 (code : ℕ)
  | ext2 (code : ℕ)
  | ext4 (code : ℕ)
  | persid (id : String)
  | binpersid
  | reduce (callee : ℕ) (argument : Argument)
  | other
  deriving DecidableEq

/-- The name of an opcode that can pass `find_class` by. -/
def Opcode.forbidden : Opcode → Option String
  | .ext1 _ => some "EXT1"
  | .ext2 _ => some "EXT2"
  | .ext4 _ => some "EXT4"
  | .persid _ => some "PERSID"
  | .binpersid => some "BINPERSID"
  | _ => none

/-- What the code uses of Python: the opcodes of a pickle up to its end, with the error that
cuts them off or the bytes behind them, the extension cache, the ordinary unpickler, the
objects of the process and calls of them. -/
structure Interpreter (α W : Type) where
  genops : Bytes → List Opcode × Except String Bytes
  extension : ℕ → Option (Global α)
  pickleLoads : W → Bytes → Except DecodeError Bytes × W
  call : W → α → Argument → Except DecodeError Unit × W
  toolFromDict : W → Argument → Except DecodeError Unit × W
  sysModules : W → String → Option α
  getattr : W → α → String → α
  isTool : α → Bool
  envelope : Bytes → Except DecodeError (Manifest × Bytes)
  install : W → Manifest → Except DecodeError Unit × W
  learn : W → Manifest → W

/-- What decoding did. -/
inductive Act (α : Type) where
  | resolved (value : Global α)
  | installed (sources : Manifest)
  | loaded (argument : Argument)

/-- A process, and what decoding did in it. -/
structure World (α W : Type) where
  process : W
  acts : List (Act α)

/-- The permissions of an endpoint at the moment a packet is decoded. -/
structure Permissions (α : Type) where
  acceptCode : Bool
  safeGlobals : SafeGlobals α
  registeredGlobals : SafeGlobals α
  pickleAllowlist : Globals α

variable {α W : Type}

def World.log (w : World α W) (act : Act α) : World α W := { w with acts := w.acts ++ [act] }

namespace Interpreter

/-- Resolve a tool class without importing or executing peer sources. -/
def existingToolFromDict (I : Interpreter α W) (w : W) : Argument → Except DecodeError (Global α)
  | .other => .error (.failed "argument of this type is not iterable")
  | .definition data =>
      if data.source || data.sources || data.dependencies then
        .error (.permission "Peer Tool sources are disabled")
      else
        match I.sysModules w (data.module.getD "") with
        | none => .error (.permission "Peer Tool module is not loaded")
        | some value =>
            match data.name with
            | none => .error (.failed "name")
            | some name =>
                let value := ((data.qualname.getD name).splitOn ".").foldl (I.getattr w) value
                if I.isTool value then
                  .ok (.other value)
                else
                  .error (.permission "Peer reference is not a Tool class")

/-- A resolved tool is a class of a module that is loaded, and its definition brings no
sources. -/
theorem existingToolFromDict_ok {I : Interpreter α W} {w : W} {argument : Argument}
    {tool : Global α} (h : I.existingToolFromDict w argument = .ok tool) :
    ∃ (data : ToolDefinition) (module value : α) (path : List String),
      argument = .definition data ∧ data.source = false ∧
      data.sources = false ∧ data.dependencies = false ∧
      I.sysModules w (data.module.getD "") = some module ∧
      value = path.foldl (I.getattr w) module ∧ I.isTool value = true ∧ tool = .other value := by
  cases argument with
  | other => cases h
  | definition data =>
      simp only [existingToolFromDict] at h
      split_ifs at h with hsources
      split at h
      · cases h
      · rename_i module hmodule
        split at h
        · cases h
        · rename_i name hname
          split_ifs at h with htool
          cases h
          simp only [Bool.or_eq_true, not_or, Bool.not_eq_true] at hsources
          exact ⟨data, module, _, _, rfl, hsources.1.1, hsources.1.2, hsources.2, hmodule, rfl,
            htool, rfl⟩

/-- The pickle calls a global. -/
def reduce (I : Interpreter α W) (w : World α W) (argument : Argument) :
    Global α → Except DecodeError Unit × World α W
  | .toolFromDict =>
      ((I.toolFromDict w.process argument).1,
        { w.log (.loaded argument) with process := (I.toolFromDict w.process argument).2 })
  | .existingToolFromDict => ((I.existingToolFromDict w.process argument).map fun _ => (), w)
  | .other object =>
      ((I.call w.process object argument).1,
        { w with process := (I.call w.process object argument).2 })

end Interpreter

namespace Permissions

/-- An allowed global with the loading function replaced. -/
def guard : Global α → Global α
  | .toolFromDict => .existingToolFromDict
  | value => value

/-- `allowed_globals` of the strict unpickler: the allowlist comes before the registered globals
and these before the safe ones. -/
def allowedGlobals (π : Permissions α) : Globals α := fun module name =>
  (((π.pickleAllowlist module name).map guard).or (π.registeredGlobals.table module name)).or
    (π.safeGlobals.table module name)

/-- `find_class` of the strict unpickler. -/
def findClass (π : Permissions α) (module name : String) : Except DecodeError (Global α) :=
  match π.allowedGlobals module name with
  | some value => .ok value
  | none => .error (.permission s!"Pickle global {module}.{name} is forbidden")

variable (I : Interpreter α W)

/-- The opcodes of a pickle run under the strict unpickler. `globals` are the ones that the
pickle obtained. An extension comes from its cache. -/
def execute (π : Permissions α) (globals : List (Global α)) :
    List Opcode → World α W → Except DecodeError Unit × World α W
  | [], w => (.ok (), w)
  | .global module name :: opcodes, w =>
      match π.findClass module name with
      | .error error => (.error error, w)
      | .ok value => execute π (globals ++ [value]) opcodes (w.log (.resolved value))
  | .ext1 code :: opcodes, w | .ext2 code :: opcodes, w | .ext4 code :: opcodes, w =>
      match I.extension code with
      | none => (.error (.failed "unregistered extension code"), w)
      | some value => execute π (globals ++ [value]) opcodes (w.log (.resolved value))
  | .persid _ :: _, w | .binpersid :: _, w =>
      (.error (.failed "A load persistent id instruction was encountered"), w)
  | .reduce callee argument :: opcodes, w =>
      match globals[callee]? with
      | none => (.error (.failed "unpickling stack underflow"), w)
      | some value =>
          match I.reduce w argument value with
          | (.error error, w) => (.error error, w)
          | (.ok _, w) => execute π globals opcodes w
  | .other :: opcodes, w => execute π globals opcodes w

/-- `StrictUnpickler.loads`. -/
def strictLoads (π : Permissions α) (w : World α W) (payload : Bytes) :
    Except DecodeError Bytes × World α W :=
  match (I.genops payload).1.findSome? Opcode.forbidden with
  | some name => (.error (.permission s!"Pickle opcode {name} is forbidden"), w)
  | none =>
      match (I.genops payload).2 with
      | .error text => (.error (.failed text), w)
      | .ok rest =>
          if rest.isEmpty then
            match execute I π [] (I.genops payload).1 w with
            | (.error error, w) => (.error error, w)
            | (.ok _, w) => (.ok payload, w)
          else
            (.error (.permission "Trailing pickle data is forbidden"), w)

/-- `PacketUnpickler.loads`. -/
def loads (π : Permissions α) (w : World α W) (payload : Bytes) :
    Except DecodeError Bytes × World α W :=
  if π.acceptCode then
    ((I.pickleLoads w.process payload).1,
      { w with process := (I.pickleLoads w.process payload).2 })
  else
    π.strictLoads I w payload

/-- What an endpoint with these permissions uses to decode a packet. -/
def process (π : Permissions α) : Process Bytes (World α W) where
  acceptCode _ := π.acceptCode
  loads := π.loads I
  envelope := I.envelope
  install w sources :=
    ((I.install w.process sources).1,
      { w.log (.installed sources) with process := (I.install w.process sources).2 })
  learn w sources := { w with process := I.learn w.process sources }

/-! ## Without the permission to load code -/

/-- Decoding resolved globals of the tables, and did nothing else. -/
def Confined (π : Permissions α) (w w' : World α W) : Prop :=
  ∃ acts, w'.acts = w.acts ++ acts ∧
    ∀ act ∈ acts, ∃ module name value, act = .resolved value ∧
      π.allowedGlobals module name = some value

variable {I} {π : Permissions α} {w w' w'' : World α W}

theorem confined_of_eq (h : w'.acts = w.acts) : π.Confined w w' := ⟨[], by simp [h], by simp⟩

theorem Confined.trans (h : π.Confined w w') (h' : π.Confined w' w'') : π.Confined w w'' := by
  obtain ⟨acts, hacts, hall⟩ := h
  obtain ⟨acts', hacts', hall'⟩ := h'
  refine ⟨acts ++ acts', by rw [hacts', hacts, List.append_assoc], fun act hact => ?_⟩
  rcases List.mem_append.mp hact with hact | hact
  · exact hall act hact
  · exact hall' act hact

/-- The strict unpickler never gives the function that loads a tool. -/
theorem allowedGlobals_ne_toolFromDict (π : Permissions α) (module name : String) :
    π.allowedGlobals module name ≠ some .toolFromDict := by
  intro h
  unfold allowedGlobals at h
  cases hallow : π.pickleAllowlist module name with
  | some value =>
      rw [hallow] at h
      cases value <;> cases h
  | none =>
      rw [hallow] at h
      cases hregistered : π.registeredGlobals.table module name with
      | some value =>
          rw [hregistered] at h
          exact π.registeredGlobals.safe module name (hregistered.trans h)
      | none =>
          rw [hregistered] at h
          exact π.safeGlobals.safe module name h

/-- Calling a global other than the loading function resolves, installs and loads nothing. -/
theorem acts_reduce (w : World α W) (argument : Argument) {value : Global α}
    (h : value ≠ .toolFromDict) : (I.reduce w argument value).2.acts = w.acts := by
  cases value with
  | toolFromDict => exact absurd rfl h
  | existingToolFromDict => rfl
  | other object => rfl

/-- A pickle without forbidden opcodes obtains only globals of the tables. -/
theorem execute_confined {globals : List (Global α)} {opcodes : List Opcode}
    (hopcodes : ∀ opcode ∈ opcodes, opcode.forbidden = none)
    (hglobals : ∀ value ∈ globals, value ≠ .toolFromDict) :
    π.Confined w (execute I π globals opcodes w).2 := by
  induction opcodes generalizing globals w with
  | nil => exact confined_of_eq rfl
  | cons opcode opcodes ih =>
      have hrest := fun op hop => hopcodes op (List.mem_cons_of_mem opcode hop)
      have hfirst := hopcodes opcode List.mem_cons_self
      cases opcode with
      | global module name =>
          simp only [execute, findClass]
          cases hvalue : π.allowedGlobals module name with
          | none => exact confined_of_eq rfl
          | some value =>
              have hlog : π.Confined w (w.log (.resolved value)) :=
                ⟨[.resolved value], rfl, by
                  simpa using ⟨module, name, hvalue⟩⟩
              refine hlog.trans (ih hrest fun g hg => ?_)
              rcases List.mem_append.mp hg with hg | hg
              · exact hglobals g hg
              · rintro rfl
                rw [← List.mem_singleton.mp hg] at hvalue
                exact π.allowedGlobals_ne_toolFromDict module name hvalue
      | reduce callee argument =>
          simp only [execute]
          cases hcallee : globals[callee]? with
          | none => exact confined_of_eq rfl
          | some value =>
              have hacts := acts_reduce (I := I) w argument
                (hglobals value (List.mem_of_getElem? hcallee))
              simp only
              rcases hreduce : I.reduce w argument value with ⟨error | _, w₁⟩
              · rw [hreduce] at hacts
                exact confined_of_eq hacts
              · rw [hreduce] at hacts
                exact (confined_of_eq hacts).trans (ih hrest hglobals)
      | other => exact ih hrest hglobals
      | _ => cases hfirst

theorem strictLoads_confined (payload : Bytes) :
    π.Confined w (π.strictLoads I w payload).2 := by
  unfold strictLoads
  split
  · exact confined_of_eq rfl
  · rename_i hforbidden
    split
    · exact confined_of_eq rfl
    · split_ifs
      · have hexecute : π.Confined w (execute I π [] (I.genops payload).1 w).2 :=
          execute_confined (List.findSome?_eq_none_iff.mp hforbidden) (by simp)
        rcases hrun : execute I π [] (I.genops payload).1 w with ⟨error | _, w₁⟩
        · rw [hrun] at hexecute
          exact hexecute
        · rw [hrun] at hexecute
          exact hexecute
      · exact confined_of_eq rfl

theorem loads_confined (hcode : π.acceptCode = false) (payload : Bytes) :
    π.Confined w (π.loads I w payload).2 := by
  rw [loads, hcode]
  exact strictLoads_confined payload

/-- Every item of a batch is loaded on its own. -/
theorem split_confined (hcode : π.acceptCode = false) (view : Bytes) :
    π.Confined w ((π.process I).split w view).2 := by
  induction hlength : view.length using Nat.strong_induction_on generalizing w view with
  | _ n ih =>
      rw [Process.split]
      split_ifs
      · exact confined_of_eq rfl
      · split
        · exact confined_of_eq rfl
        · rename_i frame rest hitem
          have hload : π.Confined w ((π.process I).loads w frame).2 := loads_confined hcode frame
          have hrest := fun w₁ => ih rest.length (hlength ▸ length_splitItem hitem) (w := w₁) rest rfl
          rcases hloads : (π.process I).loads w frame with ⟨error | value, w₁⟩
          · rw [hloads] at hload
            exact hload
          · rw [hloads] at hload
            simp only
            have hsplit := hload.trans (hrest w₁)
            rcases hvalues : (π.process I).split w₁ rest with ⟨error | values, w₂⟩
            · rw [hvalues] at hsplit
              exact hsplit
            · rw [hvalues] at hsplit
              exact hsplit

/-- An envelope is refused before it is loaded. -/
theorem openEnvelope_confined (hcode : π.acceptCode = false) (flags : Flags) (payload : Bytes) :
    ((π.process I).openEnvelope w flags payload).2 = w := by
  unfold Process.openEnvelope
  split_ifs with hmodules haccept
  · have hoff : (π.process I).acceptCode w = false := hcode
    rw [hoff] at haccept
    cases haccept
  · rfl
  · rfl

theorem decodePayload_confined (hcode : π.acceptCode = false) (flags : Flags) (payload : Bytes) :
    π.Confined w ((π.process I).decodePayload w flags payload).2 := by
  have hopen := openEnvelope_confined (I := I) (w := w) hcode flags payload
  unfold Process.decodePayload
  rcases henvelope : (π.process I).openEnvelope w flags payload with ⟨error | inner, w₁⟩
  · rw [henvelope] at hopen
    exact confined_of_eq (congrArg World.acts hopen)
  · rw [henvelope] at hopen
    obtain rfl : w₁ = w := hopen
    simp only
    split_ifs
    · exact split_confined hcode inner
    · exact loads_confined hcode inner

/-- Without the permission to load code, decoding a packet installs no source, loads no tool and
resolves only safe, registered and allowed globals. -/
theorem decodePacket_confined (hcode : π.acceptCode = false) (payload : Bytes) (flags : Flags)
    (packetId : ℕ) :
    π.Confined w ((π.process I).decodePacket w payload flags packetId).2 := by
  have hpayload : π.Confined w ((π.process I).decodePayload w flags payload).2 :=
    decodePayload_confined hcode flags payload
  unfold Process.decodePacket
  rcases hdecode : (π.process I).decodePayload w flags payload with ⟨error | value, w₁⟩
  · rw [hdecode] at hpayload
    cases error <;> exact hpayload
  · rw [hdecode] at hpayload
    exact hpayload

end Permissions

end Rmote
