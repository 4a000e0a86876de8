/-!
# Error codes

The numbers of the error codes that the modelled functions return, negated, as `int`.
-/
namespace Xrt

def ENOENT : Int := 2
def E2BIG : Int := 7
def EAGAIN : Int := 11
def ENOMEM : Int := 12
def EFAULT : Int := 14
def EBUSY : Int := 16
def EINVAL : Int := 22
def ENOTTY : Int := 25
def ENOSPC : Int := 28
def EDEADLK : Int := 35
def ENODATA : Int := 61
def ETIME : Int := 62
def EPROTO : Int := 71
def EBADMSG : Int := 74
def EMSGSIZE : Int := 90
def EOPNOTSUPP : Int := 95
def EADDRNOTAVAIL : Int := 99
def ESHUTDOWN : Int := 108

end Xrt
