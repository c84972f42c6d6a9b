/-!
Access flags: sixteen bits that say what may be done with a class or a member.
-/

namespace Linkage

structure AccessFlags where
  bits : UInt16
  deriving DecidableEq, Repr

namespace AccessFlags

def has (flags : AccessFlags) (mask : UInt16) : Bool := flags.bits &&& mask != 0

def isPublic (flags : AccessFlags) : Bool := flags.has 0x0001
def isProtected (flags : AccessFlags) : Bool := flags.has 0x0004
def isStatic (flags : AccessFlags) : Bool := flags.has 0x0008
def isFinal (flags : AccessFlags) : Bool := flags.has 0x0010
/-- Of methods only. -/
def isBridge (flags : AccessFlags) : Bool := flags.has 0x0040
def isInterface (flags : AccessFlags) : Bool := flags.has 0x0200
def isAbstract (flags : AccessFlags) : Bool := flags.has 0x0400
def isSynthetic (flags : AccessFlags) : Bool := flags.has 0x1000
def isAnnotationType (flags : AccessFlags) : Bool := flags.has 0x2000
def isEnum (flags : AccessFlags) : Bool := flags.has 0x4000
def isModule (flags : AccessFlags) : Bool := flags.has 0x8000

end AccessFlags

end Linkage
