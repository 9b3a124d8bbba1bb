import LoxLexer.Text.CharSet

/-!
# How characters join their neighbours

What a reader takes for one character can be several: a letter and its
accents, the letters of a Korean syllable, two indicators that make a flag,
pictures held together by joiners, consonants bound into one sign.  For this
the Unicode standard sorts the characters by the way in which they join those
before and after them.  The tables here hold the sorts that follow no short
rule.
-/

namespace LoxLexer

/-- The way in which a character joins its neighbours. -/
inductive Joining where
  | carriageReturn | lineFeed | control
  | extending | joiner | spacing | prepended
  | regional | pictograph | consonant
  | leadingJamo | vowelJamo | trailingJamo | openSyllable | closedSyllable
  | other
deriving DecidableEq, Repr

namespace Joining

/-- Characters that never join: controls, separators and the invisible ones that only direct. -/
def controls : CharSet := ⟨[
  0x0, 0x20, 0x7f, 0xa0, 0xad, 0xae, 0x61c, 0x61d, 0x180e, 0x180f, 0x200b, 0x200c, 0x200e,
  0x2010, 0x2028, 0x202f, 0x2060, 0x2070, 0xfeff, 0xff00, 0xfff0, 0xfffc, 0x13430, 0x13440,
  0x1bca0, 0x1bca4, 0x1d173, 0x1d17b, 0xe0000, 0xe0020, 0xe0080, 0xe0100, 0xe01f0, 0xe1000]⟩

/-- Marks without room of their own, and others that join what is before them. -/
def extenders : CharSet := ⟨[
  0x300, 0x370, 0x483, 0x48a, 0x591, 0x5be, 0x5bf, 0x5c0, 0x5c1, 0x5c3, 0x5c4, 0x5c6, 0x5c7,
  0x5c8, 0x610, 0x61b, 0x64b, 0x660, 0x670, 0x671, 0x6d6, 0x6dd, 0x6df, 0x6e5, 0x6e7, 0x6e9,
  0x6ea, 0x6ee, 0x711, 0x712, 0x730, 0x74b, 0x7a6, 0x7b1, 0x7eb, 0x7f4, 0x7fd, 0x7fe, 0x816,
  0x81a, 0x81b, 0x824, 0x825, 0x828, 0x829, 0x82e, 0x859, 0x85c, 0x897, 0x8a0, 0x8ca, 0x8e2,
  0x8e3, 0x903, 0x93a, 0x93b, 0x93c, 0x93d, 0x941, 0x949, 0x94d, 0x94e, 0x951, 0x958, 0x962,
  0x964, 0x981, 0x982, 0x9bc, 0x9bd, 0x9be, 0x9bf, 0x9c1, 0x9c5, 0x9cd, 0x9ce, 0x9d7, 0x9d8,
  0x9e2, 0x9e4, 0x9fe, 0x9ff, 0xa01, 0xa03, 0xa3c, 0xa3d, 0xa41, 0xa43, 0xa47, 0xa49, 0xa4b,
  0xa4e, 0xa51, 0xa52, 0xa70, 0xa72, 0xa75, 0xa76, 0xa81, 0xa83, 0xabc, 0xabd, 0xac1, 0xac6,
  0xac7, 0xac9, 0xacd, 0xace, 0xae2, 0xae4, 0xafa, 0xb00, 0xb01, 0xb02, 0xb3c, 0xb3d, 0xb3e,
  0xb40, 0xb41, 0xb45, 0xb4d, 0xb4e, 0xb55, 0xb58, 0xb62, 0xb64, 0xb82, 0xb83, 0xbbe, 0xbbf,
  0xbc0, 0xbc1, 0xbcd, 0xbce, 0xbd7, 0xbd8, 0xc00, 0xc01, 0xc04, 0xc05, 0xc3c, 0xc3d, 0xc3e,
  0xc41, 0xc46, 0xc49, 0xc4a, 0xc4e, 0xc55, 0xc57, 0xc62, 0xc64, 0xc81, 0xc82, 0xcbc, 0xcbd,
  0xcbf, 0xcc1, 0xcc2, 0xcc3, 0xcc6, 0xcc9, 0xcca, 0xcce, 0xcd5, 0xcd7, 0xce2, 0xce4, 0xd00,
  0xd02, 0xd3b, 0xd3d, 0xd3e, 0xd3f, 0xd41, 0xd45, 0xd4d, 0xd4e, 0xd57, 0xd58, 0xd62, 0xd64,
  0xd81, 0xd82, 0xdca, 0xdcb, 0xdcf, 0xdd0, 0xdd2, 0xdd5, 0xdd6, 0xdd7, 0xddf, 0xde0, 0xe31,
  0xe32, 0xe34, 0xe3b, 0xe47, 0xe4f, 0xeb1, 0xeb2, 0xeb4, 0xebd, 0xec8, 0xecf, 0xf18, 0xf1a,
  0xf35, 0xf36, 0xf37, 0xf38, 0xf39, 0xf3a, 0xf71, 0xf7f, 0xf80, 0xf85, 0xf86, 0xf88, 0xf8d,
  0xf98, 0xf99, 0xfbd, 0xfc6, 0xfc7, 0x102d, 0x1031, 0x1032, 0x1038, 0x1039, 0x103b, 0x103d,
  0x103f, 0x1058, 0x105a, 0x105e, 0x1061, 0x1071, 0x1075, 0x1082, 0x1083, 0x1085, 0x1087,
  0x108d, 0x108e, 0x109d, 0x109e, 0x135d, 0x1360, 0x1712, 0x1716, 0x1732, 0x1735, 0x1752,
  0x1754, 0x1772, 0x1774, 0x17b4, 0x17b6, 0x17b7, 0x17be, 0x17c6, 0x17c7, 0x17c9, 0x17d4,
  0x17dd, 0x17de, 0x180b, 0x180e, 0x180f, 0x1810, 0x1885, 0x1887, 0x18a9, 0x18aa, 0x1920,
  0x1923, 0x1927, 0x1929, 0x1932, 0x1933, 0x1939, 0x193c, 0x1a17, 0x1a19, 0x1a1b, 0x1a1c,
  0x1a56, 0x1a57, 0x1a58, 0x1a5f, 0x1a60, 0x1a61, 0x1a62, 0x1a63, 0x1a65, 0x1a6d, 0x1a73,
  0x1a7d, 0x1a7f, 0x1a80, 0x1ab0, 0x1ade, 0x1ae0, 0x1aec, 0x1b00, 0x1b04, 0x1b34, 0x1b3e,
  0x1b42, 0x1b45, 0x1b6b, 0x1b74, 0x1b80, 0x1b82, 0x1ba2, 0x1ba6, 0x1ba8, 0x1bae, 0x1be6,
  0x1be7, 0x1be8, 0x1bea, 0x1bed, 0x1bee, 0x1bef, 0x1bf4, 0x1c2c, 0x1c34, 0x1c36, 0x1c38,
  0x1cd0, 0x1cd3, 0x1cd4, 0x1ce1, 0x1ce2, 0x1ce9, 0x1ced, 0x1cee, 0x1cf4, 0x1cf5, 0x1cf8,
  0x1cfa, 0x1dc0, 0x1e00, 0x200c, 0x200d, 0x20d0, 0x20f1, 0x2cef, 0x2cf2, 0x2d7f, 0x2d80,
  0x2de0, 0x2e00, 0x302a, 0x3030, 0x3099, 0x309b, 0xa66f, 0xa673, 0xa674, 0xa67e, 0xa69e,
  0xa6a0, 0xa6f0, 0xa6f2, 0xa802, 0xa803, 0xa806, 0xa807, 0xa80b, 0xa80c, 0xa825, 0xa827,
  0xa82c, 0xa82d, 0xa8c4, 0xa8c6, 0xa8e0, 0xa8f2, 0xa8ff, 0xa900, 0xa926, 0xa92e, 0xa947,
  0xa952, 0xa953, 0xa954, 0xa980, 0xa983, 0xa9b3, 0xa9b4, 0xa9b6, 0xa9ba, 0xa9bc, 0xa9be,
  0xa9c0, 0xa9c1, 0xa9e5, 0xa9e6, 0xaa29, 0xaa2f, 0xaa31, 0xaa33, 0xaa35, 0xaa37, 0xaa43,
  0xaa44, 0xaa4c, 0xaa4d, 0xaa7c, 0xaa7d, 0xaab0, 0xaab1, 0xaab2, 0xaab5, 0xaab7, 0xaab9,
  0xaabe, 0xaac0, 0xaac1, 0xaac2, 0xaaec, 0xaaee, 0xaaf6, 0xaaf7, 0xabe5, 0xabe6, 0xabe8,
  0xabe9, 0xabed, 0xabee, 0xfb1e, 0xfb1f, 0xfe00, 0xfe10, 0xfe20, 0xfe30, 0xff9e, 0xffa0,
  0x101fd, 0x101fe, 0x102e0, 0x102e1, 0x10376, 0x1037b, 0x10a01, 0x10a04, 0x10a05, 0x10a07,
  0x10a0c, 0x10a10, 0x10a38, 0x10a3b, 0x10a3f, 0x10a40, 0x10ae5, 0x10ae7, 0x10d24, 0x10d28,
  0x10d69, 0x10d6e, 0x10eab, 0x10ead, 0x10efa, 0x10f00, 0x10f46, 0x10f51, 0x10f82, 0x10f86,
  0x11001, 0x11002, 0x11038, 0x11047, 0x11070, 0x11071, 0x11073, 0x11075, 0x1107f, 0x11082,
  0x110b3, 0x110b7, 0x110b9, 0x110bb, 0x110c2, 0x110c3, 0x11100, 0x11103, 0x11127, 0x1112c,
  0x1112d, 0x11135, 0x11173, 0x11174, 0x11180, 0x11182, 0x111b6, 0x111bf, 0x111c0, 0x111c1,
  0x111c9, 0x111cd, 0x111cf, 0x111d0, 0x1122f, 0x11232, 0x11234, 0x11238, 0x1123e, 0x1123f,
  0x11241, 0x11242, 0x112df, 0x112e0, 0x112e3, 0x112eb, 0x11300, 0x11302, 0x1133b, 0x1133d,
  0x1133e, 0x1133f, 0x11340, 0x11341, 0x1134d, 0x1134e, 0x11357, 0x11358, 0x11366, 0x1136d,
  0x11370, 0x11375, 0x113b8, 0x113b9, 0x113bb, 0x113c1, 0x113c2, 0x113c3, 0x113c5, 0x113c6,
  0x113c7, 0x113ca, 0x113ce, 0x113d1, 0x113d2, 0x113d3, 0x113e1, 0x113e3, 0x11438, 0x11440,
  0x11442, 0x11445, 0x11446, 0x11447, 0x1145e, 0x1145f, 0x114b0, 0x114b1, 0x114b3, 0x114b9,
  0x114ba, 0x114bb, 0x114bd, 0x114be, 0x114bf, 0x114c1, 0x114c2, 0x114c4, 0x115af, 0x115b0,
  0x115b2, 0x115b6, 0x115bc, 0x115be, 0x115bf, 0x115c1, 0x115dc, 0x115de, 0x11633, 0x1163b,
  0x1163d, 0x1163e, 0x1163f, 0x11641, 0x116ab, 0x116ac, 0x116ad, 0x116ae, 0x116b0, 0x116b8,
  0x1171d, 0x1171e, 0x1171f, 0x11720, 0x11722, 0x11726, 0x11727, 0x1172c, 0x1182f, 0x11838,
  0x11839, 0x1183b, 0x11930, 0x11931, 0x1193b, 0x1193f, 0x11943, 0x11944, 0x119d4, 0x119d8,
  0x119da, 0x119dc, 0x119e0, 0x119e1, 0x11a01, 0x11a0b, 0x11a33, 0x11a39, 0x11a3b, 0x11a3f,
  0x11a47, 0x11a48, 0x11a51, 0x11a57, 0x11a59, 0x11a5c, 0x11a8a, 0x11a97, 0x11a98, 0x11a9a,
  0x11b60, 0x11b61, 0x11b62, 0x11b65, 0x11b66, 0x11b67, 0x11c30, 0x11c37, 0x11c38, 0x11c3e,
  0x11c3f, 0x11c40, 0x11c92, 0x11ca8, 0x11caa, 0x11cb1, 0x11cb2, 0x11cb4, 0x11cb5, 0x11cb7,
  0x11d31, 0x11d37, 0x11d3a, 0x11d3b, 0x11d3c, 0x11d3e, 0x11d3f, 0x11d46, 0x11d47, 0x11d48,
  0x11d90, 0x11d92, 0x11d95, 0x11d96, 0x11d97, 0x11d98, 0x11ef3, 0x11ef5, 0x11f00, 0x11f02,
  0x11f36, 0x11f3b, 0x11f40, 0x11f43, 0x11f5a, 0x11f5b, 0x13440, 0x13441, 0x13447, 0x13456,
  0x1611e, 0x1612a, 0x1612d, 0x16130, 0x16af0, 0x16af5, 0x16b30, 0x16b37, 0x16f4f, 0x16f50,
  0x16f8f, 0x16f93, 0x16fe4, 0x16fe5, 0x16ff0, 0x16ff2, 0x1bc9d, 0x1bc9f, 0x1cf00, 0x1cf2e,
  0x1cf30, 0x1cf47, 0x1d165, 0x1d16a, 0x1d16d, 0x1d173, 0x1d17b, 0x1d183, 0x1d185, 0x1d18c,
  0x1d1aa, 0x1d1ae, 0x1d242, 0x1d245, 0x1da00, 0x1da37, 0x1da3b, 0x1da6d, 0x1da75, 0x1da76,
  0x1da84, 0x1da85, 0x1da9b, 0x1daa0, 0x1daa1, 0x1dab0, 0x1e000, 0x1e007, 0x1e008, 0x1e019,
  0x1e01b, 0x1e022, 0x1e023, 0x1e025, 0x1e026, 0x1e02b, 0x1e08f, 0x1e090, 0x1e130, 0x1e137,
  0x1e2ae, 0x1e2af, 0x1e2ec, 0x1e2f0, 0x1e4ec, 0x1e4f0, 0x1e5ee, 0x1e5f0, 0x1e6e3, 0x1e6e4,
  0x1e6e6, 0x1e6e7, 0x1e6ee, 0x1e6f0, 0x1e6f5, 0x1e6f6, 0x1e8d0, 0x1e8d7, 0x1e944, 0x1e94b,
  0x1f3fb, 0x1f400, 0xe0020, 0xe0080, 0xe0100, 0xe01f0]⟩

/-- Marks that take room of their own and join what is before them. -/
def spacers : CharSet := ⟨[
  0x903, 0x904, 0x93b, 0x93c, 0x93e, 0x941, 0x949, 0x94d, 0x94e, 0x950, 0x982, 0x984, 0x9bf,
  0x9c1, 0x9c7, 0x9c9, 0x9cb, 0x9cd, 0xa03, 0xa04, 0xa3e, 0xa41, 0xa83, 0xa84, 0xabe, 0xac1,
  0xac9, 0xaca, 0xacb, 0xacd, 0xb02, 0xb04, 0xb40, 0xb41, 0xb47, 0xb49, 0xb4b, 0xb4d, 0xbbf,
  0xbc0, 0xbc1, 0xbc3, 0xbc6, 0xbc9, 0xbca, 0xbcd, 0xc01, 0xc04, 0xc41, 0xc45, 0xc82, 0xc84,
  0xcbe, 0xcbf, 0xcc1, 0xcc2, 0xcc3, 0xcc5, 0xcf3, 0xcf4, 0xd02, 0xd04, 0xd3f, 0xd41, 0xd46,
  0xd49, 0xd4a, 0xd4d, 0xd82, 0xd84, 0xdd0, 0xdd2, 0xdd8, 0xddf, 0xdf2, 0xdf4, 0xe33, 0xe34,
  0xeb3, 0xeb4, 0xf3e, 0xf40, 0xf7f, 0xf80, 0x1031, 0x1032, 0x103b, 0x103d, 0x1056, 0x1058,
  0x1084, 0x1085, 0x17b6, 0x17b7, 0x17be, 0x17c6, 0x17c7, 0x17c9, 0x1923, 0x1927, 0x1929,
  0x192c, 0x1930, 0x1932, 0x1933, 0x1939, 0x1a19, 0x1a1b, 0x1a55, 0x1a56, 0x1a57, 0x1a58,
  0x1a6d, 0x1a73, 0x1b04, 0x1b05, 0x1b3e, 0x1b42, 0x1b82, 0x1b83, 0x1ba1, 0x1ba2, 0x1ba6,
  0x1ba8, 0x1be7, 0x1be8, 0x1bea, 0x1bed, 0x1bee, 0x1bef, 0x1c24, 0x1c2c, 0x1c34, 0x1c36,
  0x1ce1, 0x1ce2, 0x1cf7, 0x1cf8, 0xa823, 0xa825, 0xa827, 0xa828, 0xa880, 0xa882, 0xa8b4,
  0xa8c4, 0xa952, 0xa953, 0xa983, 0xa984, 0xa9b4, 0xa9b6, 0xa9ba, 0xa9bc, 0xa9be, 0xa9c0,
  0xaa2f, 0xaa31, 0xaa33, 0xaa35, 0xaa4d, 0xaa4e, 0xaaeb, 0xaaec, 0xaaee, 0xaaf0, 0xaaf5,
  0xaaf6, 0xabe3, 0xabe5, 0xabe6, 0xabe8, 0xabe9, 0xabeb, 0xabec, 0xabed, 0x11000, 0x11001,
  0x11002, 0x11003, 0x11082, 0x11083, 0x110b0, 0x110b3, 0x110b7, 0x110b9, 0x1112c, 0x1112d,
  0x11145, 0x11147, 0x11182, 0x11183, 0x111b3, 0x111b6, 0x111bf, 0x111c0, 0x111ce, 0x111cf,
  0x1122c, 0x1122f, 0x11232, 0x11234, 0x112e0, 0x112e3, 0x11302, 0x11304, 0x1133f, 0x11340,
  0x11341, 0x11345, 0x11347, 0x11349, 0x1134b, 0x1134d, 0x11362, 0x11364, 0x113b9, 0x113bb,
  0x113ca, 0x113cb, 0x113cc, 0x113ce, 0x11435, 0x11438, 0x11440, 0x11442, 0x11445, 0x11446,
  0x114b1, 0x114b3, 0x114b9, 0x114ba, 0x114bb, 0x114bd, 0x114be, 0x114bf, 0x114c1, 0x114c2,
  0x115b0, 0x115b2, 0x115b8, 0x115bc, 0x115be, 0x115bf, 0x11630, 0x11633, 0x1163b, 0x1163d,
  0x1163e, 0x1163f, 0x116ac, 0x116ad, 0x116ae, 0x116b0, 0x1171e, 0x1171f, 0x11726, 0x11727,
  0x1182c, 0x1182f, 0x11838, 0x11839, 0x11931, 0x11936, 0x11937, 0x11939, 0x11940, 0x11941,
  0x11942, 0x11943, 0x119d1, 0x119d4, 0x119dc, 0x119e0, 0x119e4, 0x119e5, 0x11a39, 0x11a3a,
  0x11a57, 0x11a59, 0x11a97, 0x11a98, 0x11b61, 0x11b62, 0x11b65, 0x11b66, 0x11b67, 0x11b68,
  0x11c2f, 0x11c30, 0x11c3e, 0x11c3f, 0x11ca9, 0x11caa, 0x11cb1, 0x11cb2, 0x11cb4, 0x11cb5,
  0x11d8a, 0x11d8f, 0x11d93, 0x11d95, 0x11d96, 0x11d97, 0x11ef5, 0x11ef7, 0x11f03, 0x11f04,
  0x11f34, 0x11f36, 0x11f3e, 0x11f40, 0x1612a, 0x1612d, 0x16f51, 0x16f88]⟩

/-- Signs that join what is after them. -/
def prependers : CharSet := ⟨[
  0x600, 0x606, 0x6dd, 0x6de, 0x70f, 0x710, 0x890, 0x892, 0x8e2, 0x8e3, 0xd4e, 0xd4f, 0x110bd,
  0x110be, 0x110cd, 0x110ce, 0x111c2, 0x111c4, 0x113d1, 0x113d2, 0x1193f, 0x11940, 0x11941,
  0x11942, 0x11a84, 0x11a8a, 0x11d46, 0x11d47, 0x11f02, 0x11f03]⟩

/-- Pictures, and signs that are shown like pictures. -/
def pictographs : CharSet := ⟨[
  0xa9, 0xaa, 0xae, 0xaf, 0x203c, 0x203d, 0x2049, 0x204a, 0x2122, 0x2123, 0x2139, 0x213a,
  0x2194, 0x219a, 0x21a9, 0x21ab, 0x231a, 0x231c, 0x2328, 0x2329, 0x23cf, 0x23d0, 0x23e9,
  0x23f4, 0x23f8, 0x23fb, 0x24c2, 0x24c3, 0x25aa, 0x25ac, 0x25b6, 0x25b7, 0x25c0, 0x25c1,
  0x25fb, 0x25ff, 0x2600, 0x2605, 0x260e, 0x260f, 0x2611, 0x2612, 0x2614, 0x2616, 0x2618,
  0x2619, 0x261d, 0x261e, 0x2620, 0x2621, 0x2622, 0x2624, 0x2626, 0x2627, 0x262a, 0x262b,
  0x262e, 0x2630, 0x2638, 0x263b, 0x2640, 0x2641, 0x2642, 0x2643, 0x2648, 0x2654, 0x265f,
  0x2661, 0x2663, 0x2664, 0x2665, 0x2667, 0x2668, 0x2669, 0x267b, 0x267c, 0x267e, 0x2680,
  0x2692, 0x2698, 0x2699, 0x269a, 0x269b, 0x269d, 0x26a0, 0x26a2, 0x26a7, 0x26a8, 0x26aa,
  0x26ac, 0x26b0, 0x26b2, 0x26bd, 0x26bf, 0x26c4, 0x26c6, 0x26c8, 0x26c9, 0x26ce, 0x26d0,
  0x26d1, 0x26d2, 0x26d3, 0x26d5, 0x26e9, 0x26eb, 0x26f0, 0x26f6, 0x26f7, 0x26fb, 0x26fd,
  0x26fe, 0x2702, 0x2703, 0x2705, 0x2706, 0x2708, 0x270e, 0x270f, 0x2710, 0x2712, 0x2713,
  0x2714, 0x2715, 0x2716, 0x2717, 0x271d, 0x271e, 0x2721, 0x2722, 0x2728, 0x2729, 0x2733,
  0x2735, 0x2744, 0x2745, 0x2747, 0x2748, 0x274c, 0x274d, 0x274e, 0x274f, 0x2753, 0x2756,
  0x2757, 0x2758, 0x2763, 0x2765, 0x2795, 0x2798, 0x27a1, 0x27a2, 0x27b0, 0x27b1, 0x27bf,
  0x27c0, 0x2934, 0x2936, 0x2b05, 0x2b08, 0x2b1b, 0x2b1d, 0x2b50, 0x2b51, 0x2b55, 0x2b56,
  0x3030, 0x3031, 0x303d, 0x303e, 0x3297, 0x3298, 0x3299, 0x329a, 0x1f004, 0x1f005, 0x1f02c,
  0x1f030, 0x1f094, 0x1f0a0, 0x1f0af, 0x1f0b1, 0x1f0c0, 0x1f0c1, 0x1f0cf, 0x1f0d1, 0x1f0f6,
  0x1f100, 0x1f170, 0x1f172, 0x1f17e, 0x1f180, 0x1f18e, 0x1f18f, 0x1f191, 0x1f19b, 0x1f1ae,
  0x1f1e6, 0x1f201, 0x1f210, 0x1f21a, 0x1f21b, 0x1f22f, 0x1f230, 0x1f232, 0x1f23b, 0x1f23c,
  0x1f240, 0x1f249, 0x1f260, 0x1f266, 0x1f322, 0x1f324, 0x1f394, 0x1f396, 0x1f398, 0x1f399,
  0x1f39c, 0x1f39e, 0x1f3f1, 0x1f3f3, 0x1f3f6, 0x1f3f7, 0x1f3fb, 0x1f400, 0x1f4fe, 0x1f4ff,
  0x1f53e, 0x1f549, 0x1f54f, 0x1f550, 0x1f568, 0x1f56f, 0x1f571, 0x1f573, 0x1f57b, 0x1f587,
  0x1f588, 0x1f58a, 0x1f58e, 0x1f590, 0x1f591, 0x1f595, 0x1f597, 0x1f5a4, 0x1f5a6, 0x1f5a8,
  0x1f5a9, 0x1f5b1, 0x1f5b3, 0x1f5bc, 0x1f5bd, 0x1f5c2, 0x1f5c5, 0x1f5d1, 0x1f5d4, 0x1f5dc,
  0x1f5df, 0x1f5e1, 0x1f5e2, 0x1f5e3, 0x1f5e4, 0x1f5e8, 0x1f5e9, 0x1f5ef, 0x1f5f0, 0x1f5f3,
  0x1f5f4, 0x1f5fa, 0x1f650, 0x1f680, 0x1f6c6, 0x1f6cb, 0x1f6d3, 0x1f6d5, 0x1f6e6, 0x1f6e9,
  0x1f6ea, 0x1f6eb, 0x1f6f1, 0x1f6f3, 0x1f700, 0x1f7da, 0x1f800, 0x1f80c, 0x1f810, 0x1f848,
  0x1f850, 0x1f85a, 0x1f860, 0x1f888, 0x1f890, 0x1f8ae, 0x1f8b0, 0x1f8bc, 0x1f8c0, 0x1f8c2,
  0x1f8d0, 0x1f8d9, 0x1f900, 0x1f90c, 0x1f93b, 0x1f93c, 0x1f946, 0x1f947, 0x1fa00, 0x1fa58,
  0x1fa60, 0x1fa6e, 0x1fb00, 0x1fc00, 0x1fffe]⟩

/-- Consonants that a linker binds to the next consonant. -/
def consonants : CharSet := ⟨[
  0x915, 0x93a, 0x958, 0x960, 0x978, 0x980, 0x995, 0x9a9, 0x9aa, 0x9b1, 0x9b2, 0x9b3, 0x9b6,
  0x9ba, 0x9dc, 0x9de, 0x9df, 0x9e0, 0x9f0, 0x9f2, 0xa95, 0xaa9, 0xaaa, 0xab1, 0xab2, 0xab4,
  0xab5, 0xaba, 0xaf9, 0xafa, 0xb15, 0xb29, 0xb2a, 0xb31, 0xb32, 0xb34, 0xb35, 0xb3a, 0xb5c,
  0xb5e, 0xb5f, 0xb60, 0xb71, 0xb72, 0xc15, 0xc29, 0xc2a, 0xc3a, 0xc58, 0xc5b, 0xd15, 0xd3b,
  0x1000, 0x102b, 0x103f, 0x1040, 0x1050, 0x1056, 0x105a, 0x105e, 0x1061, 0x1062, 0x1065,
  0x1067, 0x106e, 0x1071, 0x1075, 0x1082, 0x108e, 0x108f, 0x1780, 0x17b4, 0x1a20, 0x1a55,
  0x1b0b, 0x1b0d, 0x1b13, 0x1b34, 0x1b45, 0x1b4d, 0x1b83, 0x1ba1, 0x1bae, 0x1bb0, 0x1bbb,
  0x1bbe, 0xa989, 0xa98c, 0xa98f, 0xa9b3, 0xa9e0, 0xa9e5, 0xa9e7, 0xa9f0, 0xa9fa, 0xa9ff,
  0xaa60, 0xaa70, 0xaa71, 0xaa74, 0xaa7a, 0xaa7b, 0xaa7e, 0xaa80, 0xaae0, 0xaaeb, 0xabc0,
  0xabdb, 0x10a00, 0x10a01, 0x10a10, 0x10a14, 0x10a15, 0x10a18, 0x10a19, 0x10a36, 0x11103,
  0x11127, 0x11144, 0x11145, 0x11147, 0x11148, 0x11380, 0x1138a, 0x1138b, 0x1138c, 0x1138e,
  0x1138f, 0x11390, 0x113b6, 0x11900, 0x11907, 0x11909, 0x1190a, 0x1190c, 0x11914, 0x11915,
  0x11917, 0x11918, 0x11930, 0x11a00, 0x11a01, 0x11a0b, 0x11a33, 0x11a50, 0x11a51, 0x11a5c,
  0x11a84, 0x11f04, 0x11f11, 0x11f12, 0x11f34]⟩

/-- The signs between two consonants that bind them. All of them are extenders. -/
def linkers : CharSet := ⟨[
  0x94d, 0x94e, 0x9cd, 0x9ce, 0xacd, 0xace, 0xb4d, 0xb4e, 0xc4d, 0xc4e, 0xd4d, 0xd4e, 0x1039,
  0x103a, 0x17d2, 0x17d3, 0x1a60, 0x1a61, 0x1b44, 0x1b45, 0x1bab, 0x1bac, 0xa9c0, 0xa9c1,
  0xaaf6, 0xaaf7, 0x10a3f, 0x10a40, 0x11133, 0x11134, 0x113d0, 0x113d1, 0x1193e, 0x1193f,
  0x11a47, 0x11a48, 0x11a99, 0x11a9a, 0x11f42, 0x11f43]⟩

/-- The way in which the character joins its neighbours. -/
def of (c : Char) : Joining :=
  let n := c.toNat
  if c = '\r' then carriageReturn
  else if c = '\n' then lineFeed
  else if controls.contains c then control
  else if c = '\u200d' then joiner
  else if extenders.contains c then extending
  else if spacers.contains c then spacing
  else if prependers.contains c then prepended
  else if (0x1100 ≤ n ∧ n < 0x1160) ∨ (0xa960 ≤ n ∧ n < 0xa97d) then leadingJamo
  else if (0x1160 ≤ n ∧ n < 0x11a8) ∨ (0xd7b0 ≤ n ∧ n < 0xd7c7) ∨ n = 0x16d63 ∨
      (0x16d67 ≤ n ∧ n < 0x16d6b) then vowelJamo
  else if (0x11a8 ≤ n ∧ n < 0x1200) ∨ (0xd7cb ≤ n ∧ n < 0xd7fc) then trailingJamo
  else if 0xac00 ≤ n ∧ n < 0xd7a4 then
    if (n - 0xac00) % 28 = 0 then openSyllable else closedSyllable
  else if 0x1f1e6 ≤ n ∧ n < 0x1f200 then regional
  else if pictographs.contains c then pictograph
  else if consonants.contains c then consonant
  else other

/-- The character may stand between a consonant and a linker, or behind the
linker: it extends, and is not the sign that keeps characters apart. -/
def bridges (c : Char) : Bool :=
  match of c with
  | joiner => true
  | extending => c != '\u200c'
  | _ => false

end Joining

end LoxLexer
