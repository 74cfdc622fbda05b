import Mathlib.Init

/-! What an operation reports: `OK`, or `ERROR` with one of these in `errno`. -/
namespace V2lin

inductive Status where
  | ok
  /-- `S_objLib_OBJ_ID_ERROR` -/
  | objIdError
  /-- `S_objLib_OBJ_UNAVAILABLE` -/
  | objUnavailable
  /-- `S_objLib_OBJ_DELETED` -/
  | objDeleted
  /-- `S_objLib_OBJ_TIMEOUT` -/
  | objTimeout
  /-- `S_semLib_INVALID_OPERATION` -/
  | invalidOperation
  /-- `S_msgQLib_INVALID_MSG_LENGTH` -/
  | invalidMsgLength
  /-- `S_memLib_NOT_ENOUGH_MEMORY` -/
  | notEnoughMemory
  deriving DecidableEq

/-- `NO_WAIT` -/
def noWait : Int := 0

/-- `WAIT_FOREVER` -/
def waitForever : Int := -1

end V2lin
