/-!
# Error numbers of Linux

A function of the kernel returns them with a minus sign.
-/

namespace Errno

def enomem : Int := 12

def efault : Int := 14

def ebusy : Int := 16

def eexist : Int := 17

def enodev : Int := 19

def einval : Int := 22

def etimedout : Int := 110

end Errno
