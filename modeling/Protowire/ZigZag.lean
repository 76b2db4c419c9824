/-!
Zig-zag: signed words as unsigned ones in order of magnitude, 0, -1, 1, -2, …, so that a small
negative number has a short varint. At both widths it is a bijection.
-/

namespace Protowire.ZigZag

def encode32 (n : Int32) : UInt32 := ((n <<< 1) ^^^ (n >>> 31)).toUInt32

def decode32 (w : UInt32) : Int32 := (w >>> 1).toInt32 ^^^ -(w &&& 1).toInt32

def encode64 (n : Int64) : UInt64 := ((n <<< 1) ^^^ (n >>> 63)).toUInt64

def decode64 (w : UInt64) : Int64 := (w >>> 1).toInt64 ^^^ -(w &&& 1).toInt64

end Protowire.ZigZag
