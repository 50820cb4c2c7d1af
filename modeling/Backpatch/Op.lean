import Backpatch.Ty

/-!
# The instruction set

The machine has a typed operand stack.  An instruction is one opcode byte followed by zero, two,
four or eight bytes of operands; the opcode alone tells how many.  Opcodes are numbered in the order
of their declaration.  Binary instructions combine the value pushed first with the one pushed last,
so that `ISUB` leaves first minus last.
-/

namespace Backpatch

/-- Opcodes in the order of their bytes. -/
inductive Op
  | invalid
  | dLoad
  | iLoad
  | sLoad
  | dLoad0
  | iLoad0
  | sLoad0
  | dLoad1
  | iLoad1
  | dLoadM1
  | iLoadM1
  | dAdd
  | iAdd
  | dSub
  | iSub
  | dMul
  | iMul
  | dDiv
  | iDiv
  | iMod
  | dNeg
  | iNeg
  | iAOr
  | iAAnd
  | iAXor
  | iPrint
  | dPrint
  | sPrint
  | i2d
  | d2i
  | s2i
  | iSwap
  | dSwap
  | sSwap
  | pop
  | loadDVar0
  | loadDVar1
  | loadDVar2
  | loadDVar3
  | loadIVar0
  | loadIVar1
  | loadIVar2
  | loadIVar3
  | loadSVar0
  | loadSVar1
  | loadSVar2
  | loadSVar3
  | storeDVar0
  | storeDVar1
  | storeDVar2
  | storeDVar3
  | storeIVar0
  | storeIVar1
  | storeIVar2
  | storeIVar3
  | storeSVar0
  | storeSVar1
  | storeSVar2
  | storeSVar3
  | loadDVar
  | loadIVar
  | loadSVar
  | storeDVar
  | storeIVar
  | storeSVar
  | loadCtxDVar
  | loadCtxIVar
  | loadCtxSVar
  | storeCtxDVar
  | storeCtxIVar
  | storeCtxSVar
  | dCmp
  | iCmp
  | jump
  | ifICmpNe
  | ifICmpE
  | ifICmpG
  | ifICmpGe
  | ifICmpL
  | ifICmpLe
  | dump
  | stop
  | call
  | callNative
  | ret
  | breakpoint
  deriving DecidableEq, Repr, Inhabited

namespace Op

/-- Everything that is fixed about an opcode beside its byte. -/
structure Info where
  /-- The name in documents. -/
  tag : String
  /-- The assembler name. -/
  mnemonic : String
  /-- The number of operand bytes. -/
  width : Nat
  /-- What the instruction does. -/
  description : String

/-- The table of the instruction set. -/
def info : Op → Info
  | invalid => ⟨"Invalid", "INVALID", 0, "Invalid instruction."⟩
  | dLoad => ⟨"DLoad", "DLOAD", 8, "Push the double inlined in the next eight bytes."⟩
  | iLoad => ⟨"ILoad", "ILOAD", 8, "Push the int inlined in the next eight bytes."⟩
  | sLoad => ⟨"SLoad", "SLOAD", 2, "Push a string reference; next two bytes are the constant id."⟩
  | dLoad0 => ⟨"DLoad0", "DLOAD0", 0, "Push double 0."⟩
  | iLoad0 => ⟨"ILoad0", "ILOAD0", 0, "Push int 0."⟩
  | sLoad0 => ⟨"SLoad0", "SLOAD0", 0, "Push the empty string."⟩
  | dLoad1 => ⟨"DLoad1", "DLOAD1", 0, "Push double 1."⟩
  | iLoad1 => ⟨"ILoad1", "ILOAD1", 0, "Push int 1."⟩
  | dLoadM1 => ⟨"DLoadM1", "DLOADM1", 0, "Push double -1."⟩
  | iLoadM1 => ⟨"ILoadM1", "ILOADM1", 0, "Push int -1."⟩
  | dAdd => ⟨"DAdd", "DADD", 0, "Pop two doubles, push their sum."⟩
  | iAdd => ⟨"IAdd", "IADD", 0, "Pop two ints, push their sum."⟩
  | dSub => ⟨"DSub", "DSUB", 0, "Pop two doubles, push first-pushed minus last-pushed."⟩
  | iSub => ⟨"ISub", "ISUB", 0, "Pop two ints, push first-pushed minus last-pushed."⟩
  | dMul => ⟨"DMul", "DMUL", 0, "Pop two doubles, push their product."⟩
  | iMul => ⟨"IMul", "IMUL", 0, "Pop two ints, push their product."⟩
  | dDiv => ⟨"DDiv", "DDIV", 0, "Pop two doubles, push first-pushed divided by last-pushed."⟩
  | iDiv => ⟨"IDiv", "IDIV", 0, "Pop two ints, push first-pushed divided by last-pushed."⟩
  | iMod => ⟨"IMod", "IMOD", 0, "Pop two ints, push first-pushed modulo last-pushed."⟩
  | dNeg => ⟨"DNeg", "DNEG", 0, "Negate the double on top of the stack."⟩
  | iNeg => ⟨"INeg", "INEG", 0, "Negate the int on top of the stack."⟩
  | iAOr => ⟨"IAOr", "IAOR", 0, "Pop two ints, push their bitwise OR."⟩
  | iAAnd => ⟨"IAAnd", "IAAND", 0, "Pop two ints, push their bitwise AND."⟩
  | iAXor => ⟨"IAXor", "IAXOR", 0, "Pop two ints, push their bitwise XOR."⟩
  | iPrint => ⟨"IPrint", "IPRINT", 0, "Pop and print an int."⟩
  | dPrint => ⟨"DPrint", "DPRINT", 0, "Pop and print a double."⟩
  | sPrint => ⟨"SPrint", "SPRINT", 0, "Pop and print a string."⟩
  | i2d => ⟨"I2D", "I2D", 0, "Convert the int on top of the stack to a double."⟩
  | d2i => ⟨"D2I", "D2I", 0, "Convert the double on top of the stack to an int."⟩
  | s2i => ⟨"S2I", "S2I", 0, "Convert the string on top of the stack to an int."⟩
  | iSwap => ⟨"ISwap", "ISWAP", 0, "Swap the two topmost ints."⟩
  | dSwap => ⟨"DSwap", "DSWAP", 0, "Swap the two topmost doubles."⟩
  | sSwap => ⟨"SSwap", "SSWAP", 0, "Swap the two topmost strings."⟩
  | pop => ⟨"Pop", "POP", 0, "Discard the topmost value."⟩
  | loadDVar0 => ⟨"LoadDVar0", "LOADDVAR0", 0, "Push double variable 0."⟩
  | loadDVar1 => ⟨"LoadDVar1", "LOADDVAR1", 0, "Push double variable 1."⟩
  | loadDVar2 => ⟨"LoadDVar2", "LOADDVAR2", 0, "Push double variable 2."⟩
  | loadDVar3 => ⟨"LoadDVar3", "LOADDVAR3", 0, "Push double variable 3."⟩
  | loadIVar0 => ⟨"LoadIVar0", "LOADIVAR0", 0, "Push int variable 0."⟩
  | loadIVar1 => ⟨"LoadIVar1", "LOADIVAR1", 0, "Push int variable 1."⟩
  | loadIVar2 => ⟨"LoadIVar2", "LOADIVAR2", 0, "Push int variable 2."⟩
  | loadIVar3 => ⟨"LoadIVar3", "LOADIVAR3", 0, "Push int variable 3."⟩
  | loadSVar0 => ⟨"LoadSVar0", "LOADSVAR0", 0, "Push string variable 0."⟩
  | loadSVar1 => ⟨"LoadSVar1", "LOADSVAR1", 0, "Push string variable 1."⟩
  | loadSVar2 => ⟨"LoadSVar2", "LOADSVAR2", 0, "Push string variable 2."⟩
  | loadSVar3 => ⟨"LoadSVar3", "LOADSVAR3", 0, "Push string variable 3."⟩
  | storeDVar0 => ⟨"StoreDVar0", "STOREDVAR0", 0, "Pop into double variable 0."⟩
  | storeDVar1 => ⟨"StoreDVar1", "STOREDVAR1", 0, "Pop into double variable 1."⟩
  | storeDVar2 => ⟨"StoreDVar2", "STOREDVAR2", 0, "Pop into double variable 2."⟩
  | storeDVar3 => ⟨"StoreDVar3", "STOREDVAR3", 0, "Pop into double variable 3."⟩
  | storeIVar0 => ⟨"StoreIVar0", "STOREIVAR0", 0, "Pop into int variable 0."⟩
  | storeIVar1 => ⟨"StoreIVar1", "STOREIVAR1", 0, "Pop into int variable 1."⟩
  | storeIVar2 => ⟨"StoreIVar2", "STOREIVAR2", 0, "Pop into int variable 2."⟩
  | storeIVar3 => ⟨"StoreIVar3", "STOREIVAR3", 0, "Pop into int variable 3."⟩
  | storeSVar0 => ⟨"StoreSVar0", "STORESVAR0", 0, "Pop into string variable 0."⟩
  | storeSVar1 => ⟨"StoreSVar1", "STORESVAR1", 0, "Pop into string variable 1."⟩
  | storeSVar2 => ⟨"StoreSVar2", "STORESVAR2", 0, "Pop into string variable 2."⟩
  | storeSVar3 => ⟨"StoreSVar3", "STORESVAR3", 0, "Pop into string variable 3."⟩
  | loadDVar => ⟨"LoadDVar", "LOADDVAR", 2,
      "Push a double variable of the current function; next two bytes are its slot."⟩
  | loadIVar => ⟨"LoadIVar", "LOADIVAR", 2,
      "Push an int variable of the current function; next two bytes are its slot."⟩
  | loadSVar => ⟨"LoadSVar", "LOADSVAR", 2,
      "Push a string variable of the current function; next two bytes are its slot."⟩
  | storeDVar => ⟨"StoreDVar", "STOREDVAR", 2,
      "Pop into a double variable of the current function; next two bytes are its slot."⟩
  | storeIVar => ⟨"StoreIVar", "STOREIVAR", 2,
      "Pop into an int variable of the current function; next two bytes are its slot."⟩
  | storeSVar => ⟨"StoreSVar", "STORESVAR", 2,
      "Pop into a string variable of the current function; next two bytes are its slot."⟩
  | loadCtxDVar => ⟨"LoadCtxDVar", "LOADCTXDVAR", 4,
      "Push a double variable; next two bytes are the context id, then two bytes of slot."⟩
  | loadCtxIVar => ⟨"LoadCtxIVar", "LOADCTXIVAR", 4,
      "Push an int variable; next two bytes are the context id, then two bytes of slot."⟩
  | loadCtxSVar => ⟨"LoadCtxSVar", "LOADCTXSVAR", 4,
      "Push a string variable; next two bytes are the context id, then two bytes of slot."⟩
  | storeCtxDVar => ⟨"StoreCtxDVar", "STORECTXDVAR", 4,
      "Pop into a double variable; next two bytes are the context id, then two bytes of slot."⟩
  | storeCtxIVar => ⟨"StoreCtxIVar", "STORECTXIVAR", 4,
      "Pop into an int variable; next two bytes are the context id, then two bytes of slot."⟩
  | storeCtxSVar => ⟨"StoreCtxSVar", "STORECTXSVAR", 4,
      "Pop into a string variable; next two bytes are the context id, then two bytes of slot."⟩
  | dCmp => ⟨"DCmp", "DCMP", 0,
      "Pop two doubles, push cmp(first-pushed, last-pushed) as an int (-1, 0 or 1)."⟩
  | iCmp => ⟨"ICmp", "ICMP", 0,
      "Pop two ints, push cmp(first-pushed, last-pushed) as an int (-1, 0 or 1)."⟩
  | jump => ⟨"Ja", "JA", 2, "Jump always; next two bytes are the absolute target offset."⟩
  | ifICmpNe => ⟨"IfICmpNe", "IFICMPNE", 4,
      "Pop two ints; go to the first target if first-pushed != last-pushed, else to the second."⟩
  | ifICmpE => ⟨"IfICmpE", "IFICMPE", 4,
      "Pop two ints; go to the first target if first-pushed == last-pushed, else to the second."⟩
  | ifICmpG => ⟨"IfICmpG", "IFICMPG", 4,
      "Pop two ints; go to the first target if first-pushed > last-pushed, else to the second."⟩
  | ifICmpGe => ⟨"IfICmpGe", "IFICMPGE", 4,
      "Pop two ints; go to the first target if first-pushed >= last-pushed, else to the second."⟩
  | ifICmpL => ⟨"IfICmpL", "IFICMPL", 4,
      "Pop two ints; go to the first target if first-pushed < last-pushed, else to the second."⟩
  | ifICmpLe => ⟨"IfICmpLe", "IFICMPLE", 4,
      "Pop two ints; go to the first target if first-pushed <= last-pushed, else to the second."⟩
  | dump => ⟨"Dump", "DUMP", 0, "Print the topmost value without removing it."⟩
  | stop => ⟨"Stop", "STOP", 0, "Stop execution."⟩
  | call => ⟨"Call", "CALL", 2, "Call a function; next two bytes are its id."⟩
  | callNative => ⟨"CallNative", "CALLNATIVE", 2,
      "Call a native function; next two bytes are its registry id."⟩
  | ret => ⟨"Return", "RETURN", 0, "Return to the caller."⟩
  | breakpoint => ⟨"Break", "BREAK", 0, "Debugger breakpoint."⟩

/-- Every opcode, at the index that is its byte. -/
def all : Array Op :=
  #[invalid, dLoad, iLoad, sLoad, dLoad0, iLoad0, sLoad0, dLoad1, iLoad1, dLoadM1, iLoadM1, dAdd,
    iAdd, dSub, iSub, dMul, iMul, dDiv, iDiv, iMod, dNeg, iNeg, iAOr, iAAnd, iAXor, iPrint,
    dPrint, sPrint, i2d, d2i, s2i, iSwap, dSwap, sSwap, pop, loadDVar0, loadDVar1, loadDVar2,
    loadDVar3, loadIVar0, loadIVar1, loadIVar2, loadIVar3, loadSVar0, loadSVar1, loadSVar2,
    loadSVar3, storeDVar0, storeDVar1, storeDVar2, storeDVar3, storeIVar0, storeIVar1,
    storeIVar2, storeIVar3, storeSVar0, storeSVar1, storeSVar2, storeSVar3, loadDVar, loadIVar,
    loadSVar, storeDVar, storeIVar, storeSVar, loadCtxDVar, loadCtxIVar, loadCtxSVar,
    storeCtxDVar, storeCtxIVar, storeCtxSVar, dCmp, iCmp, jump, ifICmpNe, ifICmpE, ifICmpG,
    ifICmpGe, ifICmpL, ifICmpLe, dump, stop, call, callNative, ret, breakpoint]

/-- The byte of an opcode. -/
def toByte (op : Op) : UInt8 :=
  UInt8.ofNat op.ctorIdx

/-- The opcode of a byte. -/
def ofByte? (byte : UInt8) : Option Op :=
  all[byte.toNat]?

/-- The assembler name. -/
def mnemonic (op : Op) : String :=
  op.info.mnemonic

/-- The name in documents. -/
def tag (op : Op) : String :=
  op.info.tag

def description (op : Op) : String :=
  op.info.description

/-- The number of operand bytes. -/
def width (op : Op) : Nat :=
  op.info.width

/-- The number of bytes of an instruction with this opcode. -/
def length (op : Op) : Nat :=
  1 + op.width

/-- The opcode of an assembler name. -/
def ofMnemonic? (mnemonic : String) : Option Op :=
  all.find? (·.mnemonic == mnemonic)

/-- The opcode of a name in documents. -/
def ofTag? (tag : String) : Option Op :=
  all.find? (·.tag == tag)

/-- Conditional branches have two targets, the first for the condition being true. -/
def isBranch : Op → Bool
  | ifICmpNe | ifICmpE | ifICmpG | ifICmpGe | ifICmpL | ifICmpLe => true
  | _ => false

/-- The operands are jump targets. -/
def isJump (op : Op) : Bool :=
  op == jump || op.isBranch

/-- The instruction that pushes a variable of the given type: one of the running function, or with
`cross` one of any function. -/
def load? : (ty : Ty) → (cross : Bool) → Option Op
  | .int, false => some loadIVar
  | .double, false => some loadDVar
  | .string, false => some loadSVar
  | .int, true => some loadCtxIVar
  | .double, true => some loadCtxDVar
  | .string, true => some loadCtxSVar
  | _, _ => none

/-- The instruction that pops into a variable of the given type: one of the running function, or
with `cross` one of any function. -/
def store? : (ty : Ty) → (cross : Bool) → Option Op
  | .int, false => some storeIVar
  | .double, false => some storeDVar
  | .string, false => some storeSVar
  | .int, true => some storeCtxIVar
  | .double, true => some storeCtxDVar
  | .string, true => some storeCtxSVar
  | _, _ => none

/-- The instruction that pops and prints a value of the given type. -/
def print? : Ty → Option Op
  | .int => some iPrint
  | .double => some dPrint
  | .string => some sPrint
  | _ => none

/-- The instruction that converts a value of one type to another, where there is one. -/
def convert? : (source target : Ty) → Option Op
  | .int, .double => some i2d
  | .double, .int => some d2i
  | .string, .int => some s2i
  | _, _ => none

theorem ofByte?_toByte (op : Op) : ofByte? op.toByte = some op := by
  cases op <;> rfl

end Op

end Backpatch
