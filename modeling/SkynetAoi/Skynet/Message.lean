import SkynetAoi.Lib.Bytes

/-!
This module contains the messages between the services, `struct skynet_message` of `skynet_mq.h`. The
type of a message is kept in the upper byte of its size.
-/

structure SkynetMessage where
  source : UInt32
  session : Int32
  data : Option Bytes
  sz : UInt64
  deriving DecidableEq, Inhabited

namespace SkynetMessage

def ptypeResponse : UInt64 := 1

def ptypeError : UInt64 := 7

def messageTypeShift : UInt64 := 56

end SkynetMessage
