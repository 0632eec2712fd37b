import Mathlib.Data.Int.Notation

/-! # The error numbers of `zephyr_compat` -/

namespace Brickwright.Bluetooth

def EINTR : Int := 4
def EIO : Int := 5
def EAGAIN : Int := 11
def ENOMEM : Int := 12
def EBUSY : Int := 16
def EINVAL : Int := 22
def EPIPE : Int := 32
def EPROTO : Int := 71
def EMSGSIZE : Int := 90
def ENOBUFS : Int := 105
def ETIMEDOUT : Int := 110

end Brickwright.Bluetooth
