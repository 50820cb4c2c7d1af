import Backpatch.Op

/-!
# Errors of code and its containers

What can go wrong while code is written, collected, checked, stored or read back.  An error names
its cause; its wording is given once, by `CodeError.message`.
-/

namespace Backpatch

/-- What a check of finished code finds wrong with one instruction. -/
inductive InstrFault
  | invalidInstruction
  | unknownFunction (id : UInt16)
  | unknownNative (id : UInt16)
  | unknownConstant (id : UInt16)
  /-- A jump to an offset at which no instruction starts. -/
  | strayTarget (target : Nat)
  /-- A variable of a function that does not exist. -/
  | unknownContext (id : UInt16)
  /-- A variable beyond the slots of the function that should own it. -/
  | slotOutOfRange (ty : Ty) (slot : UInt16) (owner : String)
  deriving DecidableEq, Repr

/-- Why a container or a stored form of one is not well formed. -/
inductive Malformation
  /-- The stored form ends before its header does. -/
  | tooShort
  /-- The stored form ends before its payload does. -/
  | truncatedPayload
  /-- An instruction of a function does not pass the check. -/
  | instruction (function : String) (offset : Nat) (fault : InstrFault)
  deriving DecidableEq, Repr

/-- Errors of code buffers, containers and their stored forms. -/
inductive CodeError
  | invalidMagic
  | unsupportedVersion (version : UInt16)
  | malformed (cause : Malformation)
  /-- A document is no container, or a container is too large for a stored form. -/
  | serialization
  | idReassigned (name : String) (existing requested : UInt16)
  | unpatchedSite (offset : Nat)
  | patchOutOfRange (offset length : Nat)
  | codeTooLarge (offset : Nat)
  | tooManyFunctions
  | tooManyConstants
  | tooManyNatives
  | unknownOpcode (offset : Nat) (byte : UInt8)
  | truncated (offset : Nat) (op : Op)
  deriving DecidableEq, Repr

/-- Two lower-case hexadecimal digits. -/
def hexByte (byte : UInt8) : String :=
  String.ofList [Nat.digitChar (byte.toNat / 16), Nat.digitChar (byte.toNat % 16)]

def InstrFault.message : InstrFault → String
  | invalidInstruction => "invalid instruction"
  | unknownFunction id => "call to unknown function id " ++ toString id
  | unknownNative id => "call to unknown native id " ++ toString id
  | unknownConstant id => "unknown string constant " ++ toString id
  | strayTarget target => "jump target " ++ toString target ++ " is not an instruction boundary"
  | unknownContext id => "unknown variable context " ++ toString id
  | slotOutOfRange ty slot owner =>
      ty.name ++ " slot " ++ toString slot ++ " out of range for `" ++ owner ++ "`"

def Malformation.message : Malformation → String
  | tooShort => "too short"
  | truncatedPayload => "truncated payload"
  | instruction function offset fault =>
      function ++ "@" ++ toString offset ++ ": " ++ fault.message

def CodeError.message : CodeError → String
  | invalidMagic => "invalid magic bytes"
  | unsupportedVersion version => "unsupported version: " ++ toString version
  | malformed cause => "invalid bytecode: " ++ cause.message
  | serialization => "serialization error"
  | idReassigned name existing requested =>
      "function `" ++ name ++ "` already has id " ++ toString existing ++ ", cannot assign " ++
        toString requested
  | unpatchedSite offset => "unpatched jump site at offset " ++ toString offset
  | patchOutOfRange offset length =>
      "offset " ++ toString offset ++ " is not inside the code buffer (length " ++
        toString length ++ ")"
  | codeTooLarge offset =>
      "code too large: offset " ++ toString offset ++ " does not fit in a 16-bit jump target"
  | tooManyFunctions => "too many functions (limit: 65535)"
  | tooManyConstants => "too many string constants (limit: 65535)"
  | tooManyNatives => "too many native functions (limit: 65535)"
  | unknownOpcode offset byte =>
      "unknown opcode 0x" ++ hexByte byte ++ " at offset " ++ toString offset
  | truncated offset op =>
      "instruction " ++ op.mnemonic ++ " at offset " ++ toString offset ++ " is truncated"

end Backpatch
