import ProteiCov.Lib.Cpp

/- The data of `commonStructures.hpp`: call identifiers, call statuses, the CDR
   and the Result, and the two clock types the code computes with. A
   `system_clock::time_point` is a number of nanoseconds since the epoch (the
   period of the clock in libstdc++), so a default time point is `0`; a
   `duration<int>` is a number of seconds. -/
namespace ProteiCov
open Cpp

/-- `std::chrono::system_clock::time_point`. -/
abbrev TimePoint := Int

/-- Nanoseconds in a second. -/
def nanosPerSecond : Int := 1000000000

/-- `duration_cast<seconds>` of a clock difference: it truncates toward zero. -/
def durationCastSeconds (d : Int) : Int := d.tdiv nanosPerSecond

/-- `TP::CallID`, an `unsigned long long`. -/
abbrev CallID := UInt64

inductive CallStatus where
  | Awaiting
  | Completed
  | Duplication
  | Overloaded
  | Rejected
  | Timeout
  deriving DecidableEq, Repr, Inhabited

/-- The record of a call. The number is a `std::string_view` into the text the
client sent. -/
structure CDR where
  startTime : TimePoint
  endTime : TimePoint
  callID : CallID
  status : CallStatus
  operatorCallTime : TimePoint
  operatorID : UInt64
  callDuration : Int
  number : List Char
  deriving DecidableEq, Repr, Inhabited

/-- What the client of a call is told. -/
structure Result where
  status : CallStatus
  callDuration : Int
  callID : CallID
  deriving DecidableEq, Repr

end ProteiCov
