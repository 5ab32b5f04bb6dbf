/-!
The POSIX error numbers that reach a client. A request returns zero or more when it succeeds and the
negated number when it fails.
-/

namespace BufferObjects

/-- The error numbers in use, and zero for success. -/
inductive Errno
  | success
  | notPermitted
  | noEntry
  | inputOutput
  | badFile
  | noMemory
  | badAddress
  | busy
  | fileExists
  | noDevice
  | invalidArgument
  | noSpace
  deriving DecidableEq, Repr

namespace Errno

def code : Errno → Nat
  | success => 0
  | notPermitted => 1
  | noEntry => 2
  | inputOutput => 5
  | badFile => 9
  | noMemory => 12
  | badAddress => 14
  | busy => 16
  | fileExists => 17
  | noDevice => 19
  | invalidArgument => 22
  | noSpace => 28

/-- What a failing request returns. -/
def returned (e : Errno) : Int := -(e.code : Int)

def symbol : Errno → String
  | success => "Success"
  | notPermitted => "EPERM"
  | noEntry => "ENOENT"
  | inputOutput => "EIO"
  | badFile => "EBADF"
  | noMemory => "ENOMEM"
  | badAddress => "EFAULT"
  | busy => "EBUSY"
  | fileExists => "EEXIST"
  | noDevice => "ENODEV"
  | invalidArgument => "EINVAL"
  | noSpace => "ENOSPC"

def description : Errno → String
  | success => "Success"
  | notPermitted => "Operation not permitted"
  | noEntry => "No such file or directory"
  | inputOutput => "I/O error"
  | badFile => "Bad file number"
  | noMemory => "Out of memory"
  | badAddress => "Bad address"
  | busy => "Device or resource busy"
  | fileExists => "File exists"
  | noDevice => "No such device"
  | invalidArgument => "Invalid argument"
  | noSpace => "No space left on device"

/-- The error with a given number, if it is one of those in use. -/
def ofCode? (c : Int32) : Option Errno :=
  match c.toInt with
  | 0 => some success
  | 1 => some notPermitted
  | 2 => some noEntry
  | 5 => some inputOutput
  | 9 => some badFile
  | 12 => some noMemory
  | 14 => some badAddress
  | 16 => some busy
  | 17 => some fileExists
  | 19 => some noDevice
  | 22 => some invalidArgument
  | 28 => some noSpace
  | _ => none

end Errno

end BufferObjects
