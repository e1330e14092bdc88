/-
The message and response numbers of `tg_process_response.h`.
-/
import Mathlib.Init

namespace TgServer

def msgTypeBase : Int := 1000
def msgTypeClientQuit : Int := 1000
def msgTypeClientRequest : Int := 1001
def msgTypeDataLengthError : Int := 1002
def msgTypeServerShutDown : Int := 1003
def msgTypeClientInit : Int := 1004
def msgTypeClientBeClosedByAdmin : Int := 1005
def msgTypeMax : Int := 1050

def responseBase : Nat := 2000
def responseDataLengthError : Nat := 2001
def responseRequireStrIllegal : Nat := 2002
def responseServerShutDown : Nat := 2003
def responseRequireServiceNotFound : Nat := 2004
def responseReturnedDataFormatIllegal : Nat := 2006
def responseConnClosedByAdmin : Nat := 2007
def responseMax : Nat := 2050

end TgServer
