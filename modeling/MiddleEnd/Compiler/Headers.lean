/-
  What a compiler knows before it reads a program: the macros it defines itself, and the macros and
  types of the two headers that programs ask for.
-/

namespace MiddleEnd.Compiler

/-! ## Macros of the compiler -/

/-- Macros that describe the compiler and the machine. -/
def compilerMacros : List String :=
  ["_LP64 1", "_STDC_PREDEF_H 1", "__ATOMIC_ACQUIRE 2", "__ATOMIC_ACQ_REL 4", "__ATOMIC_CONSUME 1",
    "__ATOMIC_HLE_ACQUIRE 65536", "__ATOMIC_HLE_RELEASE 131072", "__ATOMIC_RELAXED 0",
    "__ATOMIC_RELEASE 3", "__ATOMIC_SEQ_CST 5", "__BIGGEST_ALIGNMENT__ 16",
    "__BYTE_ORDER__ __ORDER_LITTLE_ENDIAN__", "__CHAR16_TYPE__ short unsigned int",
    "__CHAR32_TYPE__ unsigned int", "__CHAR_BIT__ 8", "__ELF__ 1", "__FINITE_MATH_ONLY__ 0",
    "__FLOAT_WORD_ORDER__ __ORDER_LITTLE_ENDIAN__", "__FXSR__ 1", "__GCC_ASM_FLAG_OUTPUTS__ 1",
    "__GCC_ATOMIC_BOOL_LOCK_FREE 2", "__GCC_ATOMIC_CHAR16_T_LOCK_FREE 2",
    "__GCC_ATOMIC_CHAR32_T_LOCK_FREE 2", "__GCC_ATOMIC_CHAR_LOCK_FREE 2",
    "__GCC_ATOMIC_INT_LOCK_FREE 2", "__GCC_ATOMIC_LLONG_LOCK_FREE 2",
    "__GCC_ATOMIC_LONG_LOCK_FREE 2", "__GCC_ATOMIC_POINTER_LOCK_FREE 2",
    "__GCC_ATOMIC_SHORT_LOCK_FREE 2", "__GCC_ATOMIC_TEST_AND_SET_TRUEVAL 1",
    "__GCC_ATOMIC_WCHAR_T_LOCK_FREE 2", "__GCC_CONSTRUCTIVE_SIZE 64", "__GCC_DESTRUCTIVE_SIZE 64",
    "__GCC_HAVE_DWARF2_CFI_ASM 1", "__GCC_HAVE_SYNC_COMPARE_AND_SWAP_1 1",
    "__GCC_HAVE_SYNC_COMPARE_AND_SWAP_2 1", "__GCC_HAVE_SYNC_COMPARE_AND_SWAP_4 1",
    "__GCC_HAVE_SYNC_COMPARE_AND_SWAP_8 1", "__GCC_IEC_559 2", "__GCC_IEC_559_COMPLEX 2",
    "__GNUC_EXECUTION_CHARSET_NAME \x22UTF-8\x22", "__GNUC_MINOR__ 2", "__GNUC_PATCHLEVEL__ 0",
    "__GNUC_STDC_INLINE__ 1", "__GNUC_WIDE_EXECUTION_CHARSET_NAME \x22UTF-32LE\x22", "__GNUC__ 12",
    "__GXX_ABI_VERSION 1017", "__HAVE_SPECULATION_SAFE_VALUE 1", "__INT16_C(c) c",
    "__INT16_MAX__ 0x7fff", "__INT16_TYPE__ short int", "__INT32_C(c) c",
    "__INT32_MAX__ 0x7fffffff", "__INT32_TYPE__ int", "__INT64_C(c) c ## L",
    "__INT64_MAX__ 0x7fffffffffffffffL", "__INT64_TYPE__ long int", "__INT8_C(c) c",
    "__INT8_MAX__ 0x7f", "__INT8_TYPE__ signed char", "__INTMAX_C(c) c ## L",
    "__INTMAX_MAX__ 0x7fffffffffffffffL", "__INTMAX_TYPE__ long int", "__INTMAX_WIDTH__ 64",
    "__INTPTR_MAX__ 0x7fffffffffffffffL", "__INTPTR_TYPE__ long int", "__INTPTR_WIDTH__ 64",
    "__INT_FAST16_MAX__ 0x7fffffffffffffffL", "__INT_FAST16_TYPE__ long int",
    "__INT_FAST16_WIDTH__ 64", "__INT_FAST32_MAX__ 0x7fffffffffffffffL",
    "__INT_FAST32_TYPE__ long int", "__INT_FAST32_WIDTH__ 64",
    "__INT_FAST64_MAX__ 0x7fffffffffffffffL", "__INT_FAST64_TYPE__ long int",
    "__INT_FAST64_WIDTH__ 64", "__INT_FAST8_MAX__ 0x7f", "__INT_FAST8_TYPE__ signed char",
    "__INT_FAST8_WIDTH__ 8", "__INT_LEAST16_MAX__ 0x7fff", "__INT_LEAST16_TYPE__ short int",
    "__INT_LEAST16_WIDTH__ 16", "__INT_LEAST32_MAX__ 0x7fffffff", "__INT_LEAST32_TYPE__ int",
    "__INT_LEAST32_WIDTH__ 32", "__INT_LEAST64_MAX__ 0x7fffffffffffffffL",
    "__INT_LEAST64_TYPE__ long int", "__INT_LEAST64_WIDTH__ 64", "__INT_LEAST8_MAX__ 0x7f",
    "__INT_LEAST8_TYPE__ signed char", "__INT_LEAST8_WIDTH__ 8", "__INT_MAX__ 0x7fffffff",
    "__INT_WIDTH__ 32", "__LONG_LONG_MAX__ 0x7fffffffffffffffLL", "__LONG_LONG_WIDTH__ 64",
    "__LONG_MAX__ 0x7fffffffffffffffL", "__LONG_WIDTH__ 64", "__LP64__ 1", "__MMX_WITH_SSE__ 1",
    "__MMX__ 1", "__NO_INLINE__ 1", "__ORDER_BIG_ENDIAN__ 4321", "__ORDER_LITTLE_ENDIAN__ 1234",
    "__ORDER_PDP_ENDIAN__ 3412", "__PIC__ 2", "__PIE__ 2", "__PRAGMA_REDEFINE_EXTNAME 1",
    "__PTRDIFF_MAX__ 0x7fffffffffffffffL", "__PTRDIFF_TYPE__ long int", "__PTRDIFF_WIDTH__ 64",
    "__REGISTER_PREFIX__", "__SCHAR_MAX__ 0x7f", "__SCHAR_WIDTH__ 8", "__SEG_FS 1", "__SEG_GS 1",
    "__SHRT_MAX__ 0x7fff", "__SHRT_WIDTH__ 16", "__SIG_ATOMIC_MAX__ 0x7fffffff",
    "__SIG_ATOMIC_MIN__ (-__SIG_ATOMIC_MAX__ - 1)", "__SIG_ATOMIC_TYPE__ int",
    "__SIG_ATOMIC_WIDTH__ 32", "__SIZEOF_DOUBLE__ 8", "__SIZEOF_FLOAT128__ 16",
    "__SIZEOF_FLOAT80__ 16", "__SIZEOF_FLOAT__ 4", "__SIZEOF_INT128__ 16", "__SIZEOF_INT__ 4",
    "__SIZEOF_LONG_DOUBLE__ 16", "__SIZEOF_LONG_LONG__ 8", "__SIZEOF_LONG__ 8",
    "__SIZEOF_POINTER__ 8", "__SIZEOF_PTRDIFF_T__ 8", "__SIZEOF_SHORT__ 2", "__SIZEOF_SIZE_T__ 8",
    "__SIZEOF_WCHAR_T__ 4", "__SIZEOF_WINT_T__ 4", "__SIZE_MAX__ 0xffffffffffffffffUL",
    "__SIZE_TYPE__ long unsigned int", "__SIZE_WIDTH__ 64", "__SSE2_MATH__ 1", "__SSE2__ 1",
    "__SSE_MATH__ 1", "__SSE__ 1", "__STDC_HOSTED__ 1", "__STDC_IEC_559_COMPLEX__ 1",
    "__STDC_IEC_559__ 1", "__STDC_IEC_60559_BFP__ 201404L", "__STDC_IEC_60559_COMPLEX__ 201404L",
    "__STDC_ISO_10646__ 201706L", "__STDC_VERSION__ 199901L", "__STDC__ 1", "__STRICT_ANSI__ 1",
    "__UINT16_C(c) c", "__UINT16_MAX__ 0xffff", "__UINT16_TYPE__ short unsigned int",
    "__UINT32_C(c) c ## U", "__UINT32_MAX__ 0xffffffffU", "__UINT32_TYPE__ unsigned int",
    "__UINT64_C(c) c ## UL", "__UINT64_MAX__ 0xffffffffffffffffUL",
    "__UINT64_TYPE__ long unsigned int", "__UINT8_C(c) c", "__UINT8_MAX__ 0xff",
    "__UINT8_TYPE__ unsigned char", "__UINTMAX_C(c) c ## UL",
    "__UINTMAX_MAX__ 0xffffffffffffffffUL", "__UINTMAX_TYPE__ long unsigned int",
    "__UINTPTR_MAX__ 0xffffffffffffffffUL", "__UINTPTR_TYPE__ long unsigned int",
    "__UINT_FAST16_MAX__ 0xffffffffffffffffUL", "__UINT_FAST16_TYPE__ long unsigned int",
    "__UINT_FAST32_MAX__ 0xffffffffffffffffUL", "__UINT_FAST32_TYPE__ long unsigned int",
    "__UINT_FAST64_MAX__ 0xffffffffffffffffUL", "__UINT_FAST64_TYPE__ long unsigned int",
    "__UINT_FAST8_MAX__ 0xff", "__UINT_FAST8_TYPE__ unsigned char", "__UINT_LEAST16_MAX__ 0xffff",
    "__UINT_LEAST16_TYPE__ short unsigned int", "__UINT_LEAST32_MAX__ 0xffffffffU",
    "__UINT_LEAST32_TYPE__ unsigned int", "__UINT_LEAST64_MAX__ 0xffffffffffffffffUL",
    "__UINT_LEAST64_TYPE__ long unsigned int", "__UINT_LEAST8_MAX__ 0xff",
    "__UINT_LEAST8_TYPE__ unsigned char", "__USER_LABEL_PREFIX__", "__VERSION__ \x2212.2.0\x22",
    "__WCHAR_MAX__ 0x7fffffff", "__WCHAR_MIN__ (-__WCHAR_MAX__ - 1)", "__WCHAR_TYPE__ int",
    "__WCHAR_WIDTH__ 32", "__WINT_MAX__ 0xffffffffU", "__WINT_MIN__ 0U",
    "__WINT_TYPE__ unsigned int", "__WINT_WIDTH__ 32", "__amd64 1", "__amd64__ 1",
    "__code_model_small__ 1", "__gnu_linux__ 1", "__k8 1", "__k8__ 1", "__linux 1", "__linux__ 1",
    "__pic__ 2", "__pie__ 2", "__unix 1", "__unix__ 1", "__x86_64 1", "__x86_64__ 1",
    "__FILE__ \x22tyir_temp.c\x22", "__BASE_FILE__ \x22tyir_temp.c\x22", "__LINE__ 1",
    "__COUNTER__ 0", "__INCLUDE_LEVEL__ 0", "__DATE__ \x22Jan  1 2024\x22",
    "__TIME__ \x2200:00:00\x22", "__TIMESTAMP__ \x22Mon Jan  1 00:00:00 2024\x22"]

/-- Macros that describe the floating-point formats. -/
def realMacros : List String :=
  ["__DBL_DECIMAL_DIG__ 17",
    "__DBL_DENORM_MIN__ ((double)4.94065645841246544176568792868221372e-324L)", "__DBL_DIG__ 15",
    "__DBL_EPSILON__ ((double)2.22044604925031308084726333618164062e-16L)", "__DBL_HAS_DENORM__ 1",
    "__DBL_HAS_INFINITY__ 1", "__DBL_HAS_QUIET_NAN__ 1", "__DBL_IS_IEC_60559__ 1",
    "__DBL_MANT_DIG__ 53", "__DBL_MAX_10_EXP__ 308", "__DBL_MAX_EXP__ 1024",
    "__DBL_MAX__ ((double)1.79769313486231570814527423731704357e+308L)",
    "__DBL_MIN_10_EXP__ (-307)", "__DBL_MIN_EXP__ (-1021)",
    "__DBL_MIN__ ((double)2.22507385850720138309023271733240406e-308L)",
    "__DBL_NORM_MAX__ ((double)1.79769313486231570814527423731704357e+308L)",
    "__DEC128_EPSILON__ 1E-33DL", "__DEC128_MANT_DIG__ 34", "__DEC128_MAX_EXP__ 6145",
    "__DEC128_MAX__ 9.999999999999999999999999999999999E6144DL", "__DEC128_MIN_EXP__ (-6142)",
    "__DEC128_MIN__ 1E-6143DL",
    "__DEC128_SUBNORMAL_MIN__ 0.000000000000000000000000000000001E-6143DL",
    "__DEC32_EPSILON__ 1E-6DF", "__DEC32_MANT_DIG__ 7", "__DEC32_MAX_EXP__ 97",
    "__DEC32_MAX__ 9.999999E96DF", "__DEC32_MIN_EXP__ (-94)", "__DEC32_MIN__ 1E-95DF",
    "__DEC32_SUBNORMAL_MIN__ 0.000001E-95DF", "__DEC64_EPSILON__ 1E-15DD", "__DEC64_MANT_DIG__ 16",
    "__DEC64_MAX_EXP__ 385", "__DEC64_MAX__ 9.999999999999999E384DD", "__DEC64_MIN_EXP__ (-382)",
    "__DEC64_MIN__ 1E-383DD", "__DEC64_SUBNORMAL_MIN__ 0.000000000000001E-383DD",
    "__DECIMAL_BID_FORMAT__ 1", "__DECIMAL_DIG__ 21", "__DEC_EVAL_METHOD__ 2",
    "__FLT128_DECIMAL_DIG__ 36",
    "__FLT128_DENORM_MIN__ 6.47517511943802511092443895822764655e-4966F128", "__FLT128_DIG__ 33",
    "__FLT128_EPSILON__ 1.92592994438723585305597794258492732e-34F128", "__FLT128_HAS_DENORM__ 1",
    "__FLT128_HAS_INFINITY__ 1", "__FLT128_HAS_QUIET_NAN__ 1", "__FLT128_IS_IEC_60559__ 1",
    "__FLT128_MANT_DIG__ 113", "__FLT128_MAX_10_EXP__ 4932", "__FLT128_MAX_EXP__ 16384",
    "__FLT128_MAX__ 1.18973149535723176508575932662800702e+4932F128",
    "__FLT128_MIN_10_EXP__ (-4931)", "__FLT128_MIN_EXP__ (-16381)",
    "__FLT128_MIN__ 3.36210314311209350626267781732175260e-4932F128",
    "__FLT128_NORM_MAX__ 1.18973149535723176508575932662800702e+4932F128",
    "__FLT16_DECIMAL_DIG__ 5", "__FLT16_DENORM_MIN__ 5.96046447753906250000000000000000000e-8F16",
    "__FLT16_DIG__ 3", "__FLT16_EPSILON__ 9.76562500000000000000000000000000000e-4F16",
    "__FLT16_HAS_DENORM__ 1", "__FLT16_HAS_INFINITY__ 1", "__FLT16_HAS_QUIET_NAN__ 1",
    "__FLT16_IS_IEC_60559__ 1", "__FLT16_MANT_DIG__ 11", "__FLT16_MAX_10_EXP__ 4",
    "__FLT16_MAX_EXP__ 16", "__FLT16_MAX__ 6.55040000000000000000000000000000000e+4F16",
    "__FLT16_MIN_10_EXP__ (-4)", "__FLT16_MIN_EXP__ (-13)",
    "__FLT16_MIN__ 6.10351562500000000000000000000000000e-5F16",
    "__FLT16_NORM_MAX__ 6.55040000000000000000000000000000000e+4F16", "__FLT32X_DECIMAL_DIG__ 17",
    "__FLT32X_DENORM_MIN__ 4.94065645841246544176568792868221372e-324F32x", "__FLT32X_DIG__ 15",
    "__FLT32X_EPSILON__ 2.22044604925031308084726333618164062e-16F32x", "__FLT32X_HAS_DENORM__ 1",
    "__FLT32X_HAS_INFINITY__ 1", "__FLT32X_HAS_QUIET_NAN__ 1", "__FLT32X_IS_IEC_60559__ 1",
    "__FLT32X_MANT_DIG__ 53", "__FLT32X_MAX_10_EXP__ 308", "__FLT32X_MAX_EXP__ 1024",
    "__FLT32X_MAX__ 1.79769313486231570814527423731704357e+308F32x", "__FLT32X_MIN_10_EXP__ (-307)",
    "__FLT32X_MIN_EXP__ (-1021)", "__FLT32X_MIN__ 2.22507385850720138309023271733240406e-308F32x",
    "__FLT32X_NORM_MAX__ 1.79769313486231570814527423731704357e+308F32x", "__FLT32_DECIMAL_DIG__ 9",
    "__FLT32_DENORM_MIN__ 1.40129846432481707092372958328991613e-45F32", "__FLT32_DIG__ 6",
    "__FLT32_EPSILON__ 1.19209289550781250000000000000000000e-7F32", "__FLT32_HAS_DENORM__ 1",
    "__FLT32_HAS_INFINITY__ 1", "__FLT32_HAS_QUIET_NAN__ 1", "__FLT32_IS_IEC_60559__ 1",
    "__FLT32_MANT_DIG__ 24", "__FLT32_MAX_10_EXP__ 38", "__FLT32_MAX_EXP__ 128",
    "__FLT32_MAX__ 3.40282346638528859811704183484516925e+38F32", "__FLT32_MIN_10_EXP__ (-37)",
    "__FLT32_MIN_EXP__ (-125)", "__FLT32_MIN__ 1.17549435082228750796873653722224568e-38F32",
    "__FLT32_NORM_MAX__ 3.40282346638528859811704183484516925e+38F32", "__FLT64X_DECIMAL_DIG__ 21",
    "__FLT64X_DENORM_MIN__ 3.64519953188247460252840593361941982e-4951F64x", "__FLT64X_DIG__ 18",
    "__FLT64X_EPSILON__ 1.08420217248550443400745280086994171e-19F64x", "__FLT64X_HAS_DENORM__ 1",
    "__FLT64X_HAS_INFINITY__ 1", "__FLT64X_HAS_QUIET_NAN__ 1", "__FLT64X_IS_IEC_60559__ 1",
    "__FLT64X_MANT_DIG__ 64", "__FLT64X_MAX_10_EXP__ 4932", "__FLT64X_MAX_EXP__ 16384",
    "__FLT64X_MAX__ 1.18973149535723176502126385303097021e+4932F64x",
    "__FLT64X_MIN_10_EXP__ (-4931)", "__FLT64X_MIN_EXP__ (-16381)",
    "__FLT64X_MIN__ 3.36210314311209350626267781732175260e-4932F64x",
    "__FLT64X_NORM_MAX__ 1.18973149535723176502126385303097021e+4932F64x",
    "__FLT64_DECIMAL_DIG__ 17",
    "__FLT64_DENORM_MIN__ 4.94065645841246544176568792868221372e-324F64", "__FLT64_DIG__ 15",
    "__FLT64_EPSILON__ 2.22044604925031308084726333618164062e-16F64", "__FLT64_HAS_DENORM__ 1",
    "__FLT64_HAS_INFINITY__ 1", "__FLT64_HAS_QUIET_NAN__ 1", "__FLT64_IS_IEC_60559__ 1",
    "__FLT64_MANT_DIG__ 53", "__FLT64_MAX_10_EXP__ 308", "__FLT64_MAX_EXP__ 1024",
    "__FLT64_MAX__ 1.79769313486231570814527423731704357e+308F64", "__FLT64_MIN_10_EXP__ (-307)",
    "__FLT64_MIN_EXP__ (-1021)", "__FLT64_MIN__ 2.22507385850720138309023271733240406e-308F64",
    "__FLT64_NORM_MAX__ 1.79769313486231570814527423731704357e+308F64", "__FLT_DECIMAL_DIG__ 9",
    "__FLT_DENORM_MIN__ 1.40129846432481707092372958328991613e-45F", "__FLT_DIG__ 6",
    "__FLT_EPSILON__ 1.19209289550781250000000000000000000e-7F", "__FLT_EVAL_METHOD_TS_18661_3__ 0",
    "__FLT_EVAL_METHOD__ 0", "__FLT_HAS_DENORM__ 1", "__FLT_HAS_INFINITY__ 1",
    "__FLT_HAS_QUIET_NAN__ 1", "__FLT_IS_IEC_60559__ 1", "__FLT_MANT_DIG__ 24",
    "__FLT_MAX_10_EXP__ 38", "__FLT_MAX_EXP__ 128",
    "__FLT_MAX__ 3.40282346638528859811704183484516925e+38F", "__FLT_MIN_10_EXP__ (-37)",
    "__FLT_MIN_EXP__ (-125)", "__FLT_MIN__ 1.17549435082228750796873653722224568e-38F",
    "__FLT_NORM_MAX__ 3.40282346638528859811704183484516925e+38F", "__FLT_RADIX__ 2",
    "__LDBL_DECIMAL_DIG__ 21", "__LDBL_DENORM_MIN__ 3.64519953188247460252840593361941982e-4951L",
    "__LDBL_DIG__ 18", "__LDBL_EPSILON__ 1.08420217248550443400745280086994171e-19L",
    "__LDBL_HAS_DENORM__ 1", "__LDBL_HAS_INFINITY__ 1", "__LDBL_HAS_QUIET_NAN__ 1",
    "__LDBL_IS_IEC_60559__ 1", "__LDBL_MANT_DIG__ 64", "__LDBL_MAX_10_EXP__ 4932",
    "__LDBL_MAX_EXP__ 16384", "__LDBL_MAX__ 1.18973149535723176502126385303097021e+4932L",
    "__LDBL_MIN_10_EXP__ (-4931)", "__LDBL_MIN_EXP__ (-16381)",
    "__LDBL_MIN__ 3.36210314311209350626267781732175260e-4932L",
    "__LDBL_NORM_MAX__ 1.18973149535723176502126385303097021e+4932L"]

/-! ## Headers -/

/-- Macros of the header of integer types, and of those that it asks for. -/
def integerMacros : List String :=
  ["INT16_C(c) c", "INT16_MAX (32767)", "INT16_MIN (-32767-1)", "INT32_C(c) c",
    "INT32_MAX (2147483647)", "INT32_MIN (-2147483647-1)", "INT64_C(c) c ## L",
    "INT64_MAX (__INT64_C(9223372036854775807))", "INT64_MIN (-__INT64_C(9223372036854775807)-1)",
    "INT8_C(c) c", "INT8_MAX (127)", "INT8_MIN (-128)", "INTMAX_C(c) c ## L",
    "INTMAX_MAX (__INT64_C(9223372036854775807))", "INTMAX_MIN (-__INT64_C(9223372036854775807)-1)",
    "INTPTR_MAX (9223372036854775807L)", "INTPTR_MIN (-9223372036854775807L-1)",
    "INT_FAST16_MAX (9223372036854775807L)", "INT_FAST16_MIN (-9223372036854775807L-1)",
    "INT_FAST32_MAX (9223372036854775807L)", "INT_FAST32_MIN (-9223372036854775807L-1)",
    "INT_FAST64_MAX (__INT64_C(9223372036854775807))",
    "INT_FAST64_MIN (-__INT64_C(9223372036854775807)-1)", "INT_FAST8_MAX (127)",
    "INT_FAST8_MIN (-128)", "INT_LEAST16_MAX (32767)", "INT_LEAST16_MIN (-32767-1)",
    "INT_LEAST32_MAX (2147483647)", "INT_LEAST32_MIN (-2147483647-1)",
    "INT_LEAST64_MAX (__INT64_C(9223372036854775807))",
    "INT_LEAST64_MIN (-__INT64_C(9223372036854775807)-1)", "INT_LEAST8_MAX (127)",
    "INT_LEAST8_MIN (-128)", "PTRDIFF_MAX (9223372036854775807L)",
    "PTRDIFF_MIN (-9223372036854775807L-1)", "SIG_ATOMIC_MAX (2147483647)",
    "SIG_ATOMIC_MIN (-2147483647-1)", "SIZE_MAX (18446744073709551615UL)", "UINT16_C(c) c",
    "UINT16_MAX (65535)", "UINT32_C(c) c ## U", "UINT32_MAX (4294967295U)", "UINT64_C(c) c ## UL",
    "UINT64_MAX (__UINT64_C(18446744073709551615))", "UINT8_C(c) c", "UINT8_MAX (255)",
    "UINTMAX_C(c) c ## UL", "UINTMAX_MAX (__UINT64_C(18446744073709551615))",
    "UINTPTR_MAX (18446744073709551615UL)", "UINT_FAST16_MAX (18446744073709551615UL)",
    "UINT_FAST32_MAX (18446744073709551615UL)",
    "UINT_FAST64_MAX (__UINT64_C(18446744073709551615))", "UINT_FAST8_MAX (255)",
    "UINT_LEAST16_MAX (65535)", "UINT_LEAST32_MAX (4294967295U)",
    "UINT_LEAST64_MAX (__UINT64_C(18446744073709551615))", "UINT_LEAST8_MAX (255)",
    "WCHAR_MAX __WCHAR_MAX", "WCHAR_MIN __WCHAR_MIN", "WINT_MAX (4294967295u)", "WINT_MIN (0u)",
    "_BITS_STDINT_INTN_H 1", "_BITS_STDINT_LEAST_H 1", "_BITS_STDINT_UINTN_H 1", "_BITS_TIME64_H 1",
    "_BITS_TYPESIZES_H 1", "_BITS_TYPES_H 1", "_BITS_WCHAR_H 1", "_FEATURES_H 1",
    "_GCC_WRAP_STDINT_H", "_STDINT_H 1", "_SYS_CDEFS_H 1",
    "_Static_assert(expr,diagnostic) extern int (*__Static_assert_function (void)) " ++
      "[!!sizeof (struct \x7b int __error_if_negative: (expr) ? 2 : -1; \x7d)]",
    "__ASMNAME(cname) __ASMNAME2 (__USER_LABEL_PREFIX__, cname)",
    "__ASMNAME2(prefix,cname) __STRING (prefix) cname", "__BEGIN_DECLS",
    "__BLKCNT64_T_TYPE __SQUAD_TYPE", "__BLKCNT_T_TYPE __SYSCALL_SLONG_TYPE",
    "__BLKSIZE_T_TYPE __SYSCALL_SLONG_TYPE", "__CLOCKID_T_TYPE __S32_TYPE",
    "__CLOCK_T_TYPE __SYSCALL_SLONG_TYPE", "__COLD __attribute__ ((__cold__))",
    "__CONCAT(x,y) x ## y", "__CPU_MASK_TYPE __SYSCALL_ULONG_TYPE", "__DADDR_T_TYPE __S32_TYPE",
    "__DEV_T_TYPE __UQUAD_TYPE", "__END_DECLS", "__FD_SETSIZE 1024",
    "__FSBLKCNT64_T_TYPE __UQUAD_TYPE", "__FSBLKCNT_T_TYPE __SYSCALL_ULONG_TYPE",
    "__FSFILCNT64_T_TYPE __UQUAD_TYPE", "__FSFILCNT_T_TYPE __SYSCALL_ULONG_TYPE",
    "__FSID_T_TYPE struct \x7b int __val[2]; \x7d", "__FSWORD_T_TYPE __SYSCALL_SLONG_TYPE",
    "__GID_T_TYPE __U32_TYPE", "__GLIBC_MINOR__ 36",
    "__GLIBC_PREREQ(maj,min) ((__GLIBC__ << 16) + __GLIBC_MINOR__ >= ((maj) << 16) + (min))",
    "__GLIBC_USE(F) __GLIBC_USE_ ## F", "__GLIBC_USE_DEPRECATED_GETS 1",
    "__GLIBC_USE_DEPRECATED_SCANF 0", "__GLIBC_USE_IEC_60559_BFP_EXT 0",
    "__GLIBC_USE_IEC_60559_BFP_EXT_C2X 0", "__GLIBC_USE_IEC_60559_EXT 0",
    "__GLIBC_USE_IEC_60559_FUNCS_EXT 0", "__GLIBC_USE_IEC_60559_FUNCS_EXT_C2X 0",
    "__GLIBC_USE_IEC_60559_TYPES_EXT 0", "__GLIBC_USE_ISOC2X 0", "__GLIBC_USE_LIB_EXT2 0",
    "__GLIBC__ 2",
    "__GNUC_PREREQ(maj,min) ((__GNUC__ << 16) + __GNUC_MINOR__ >= ((maj) << 16) + (min))",
    "__GNU_LIBRARY__ 6", "__HAVE_GENERIC_SELECTION 1", "__ID_T_TYPE __U32_TYPE",
    "__INO64_T_TYPE __UQUAD_TYPE", "__INO_T_MATCHES_INO64_T 1", "__INO_T_TYPE __SYSCALL_ULONG_TYPE",
    "__KERNEL_OLD_TIMEVAL_MATCHES_TIMEVAL64 1", "__KERNEL_STRICT_NAMES", "__KEY_T_TYPE __S32_TYPE",
    "__LDBL_REDIR(name,proto) name proto", "__LDBL_REDIR1(name,proto,alias) name proto",
    "__LDBL_REDIR1_NTH(name,proto,alias) name proto __THROW", "__LDBL_REDIR2_DECL(name)",
    "__LDBL_REDIR_DECL(name)", "__LDBL_REDIR_NTH(name,proto) name proto __THROW",
    "__LDOUBLE_REDIRECTS_TO_FLOAT128_ABI 0", "__LEAF , __leaf__",
    "__LEAF_ATTR __attribute__ ((__leaf__))", "__MODE_T_TYPE __U32_TYPE",
    "__NLINK_T_TYPE __SYSCALL_ULONG_TYPE", "__NTH(fct) __attribute__ ((__nothrow__ __LEAF)) fct",
    "__NTHNL(fct) __attribute__ ((__nothrow__)) fct", "__OFF64_T_TYPE __SQUAD_TYPE",
    "__OFF_T_MATCHES_OFF64_T 1", "__OFF_T_TYPE __SYSCALL_SLONG_TYPE", "__P(args) args",
    "__PID_T_TYPE __S32_TYPE", "__PMT(args) args",
    "__REDIRECT(name,proto,alias) name proto __asm__ (__ASMNAME (#alias))",
    "__REDIRECT_FORTIFY __REDIRECT", "__REDIRECT_FORTIFY_NTH __REDIRECT_NTH",
    "__REDIRECT_LDBL(name,proto,alias) __REDIRECT (name, proto, alias)",
    "__REDIRECT_NTH(name,proto,alias) name proto __asm__ (__ASMNAME (#alias)) __THROW",
    "__REDIRECT_NTHNL(name,proto,alias) name proto __asm__ (__ASMNAME (#alias)) __THROWNL",
    "__REDIRECT_NTH_LDBL(name,proto,alias) __REDIRECT_NTH (name, proto, alias)",
    "__RLIM64_T_TYPE __UQUAD_TYPE", "__RLIM_T_MATCHES_RLIM64_T 1",
    "__RLIM_T_TYPE __SYSCALL_ULONG_TYPE", "__S16_TYPE short int", "__S32_TYPE int",
    "__S64_TYPE long int", "__SLONG32_TYPE int", "__SLONGWORD_TYPE long int",
    "__SQUAD_TYPE long int", "__SSIZE_T_TYPE __SWORD_TYPE", "__STATFS_MATCHES_STATFS64 1",
    "__STRING(x) #x", "__SUSECONDS64_T_TYPE __SQUAD_TYPE",
    "__SUSECONDS_T_TYPE __SYSCALL_SLONG_TYPE", "__SWORD_TYPE long int",
    "__SYSCALL_SLONG_TYPE __SLONGWORD_TYPE", "__SYSCALL_ULONG_TYPE __ULONGWORD_TYPE",
    "__SYSCALL_WORDSIZE 64", "__THROW __attribute__ ((__nothrow__ __LEAF))",
    "__THROWNL __attribute__ ((__nothrow__))", "__TIME64_T_TYPE __TIME_T_TYPE",
    "__TIMER_T_TYPE void *", "__TIMESIZE __WORDSIZE", "__TIME_T_TYPE __SYSCALL_SLONG_TYPE",
    "__U16_TYPE unsigned short int", "__U32_TYPE unsigned int", "__U64_TYPE unsigned long int",
    "__UID_T_TYPE __U32_TYPE", "__ULONG32_TYPE unsigned int", "__ULONGWORD_TYPE unsigned long int",
    "__UQUAD_TYPE unsigned long int", "__USECONDS_T_TYPE __U32_TYPE", "__USE_FORTIFY_LEVEL 0",
    "__USE_ISOC95 1", "__USE_ISOC99 1", "__UWORD_TYPE unsigned long int",
    "__WCHAR_MAX __WCHAR_MAX__", "__WCHAR_MIN __WCHAR_MIN__", "__WORDSIZE 64",
    "__WORDSIZE_TIME64_COMPAT32 1", "__always_inline __inline __attribute__ ((__always_inline__))",
    "__attr_access(x) __attribute__ ((__access__ x))",
    "__attr_access_none(argno) __attribute__ ((__access__ (__none__, argno)))",
    "__attr_dealloc(dealloc,argno) __attribute__ ((__malloc__ (dealloc, argno)))",
    "__attr_dealloc_free __attr_dealloc (__builtin_free, 1)",
    "__attribute_alloc_align__(param) __attribute__ ((__alloc_align__ param))",
    "__attribute_alloc_size__(params) __attribute__ ((__alloc_size__ params))",
    "__attribute_artificial__ __attribute__ ((__artificial__))",
    "__attribute_const__ __attribute__ ((__const__))",
    "__attribute_copy__(arg) __attribute__ ((__copy__ (arg)))",
    "__attribute_deprecated__ __attribute__ ((__deprecated__))",
    "__attribute_deprecated_msg__(msg) __attribute__ ((__deprecated__ (msg)))",
    "__attribute_format_arg__(x) __attribute__ ((__format_arg__ (x)))",
    "__attribute_format_strfmon__(a,b) __attribute__ ((__format__ (__strfmon__, a, b)))",
    "__attribute_malloc__ __attribute__ ((__malloc__))",
    "__attribute_maybe_unused__ __attribute__ ((__unused__))",
    "__attribute_noinline__ __attribute__ ((__noinline__))",
    "__attribute_nonnull__(params) __attribute__ ((__nonnull__ params))",
    "__attribute_nonstring__ __attribute__ ((__nonstring__))",
    "__attribute_pure__ __attribute__ ((__pure__))",
    "__attribute_returns_twice__ __attribute__ ((__returns_twice__))",
    "__attribute_used__ __attribute__ ((__used__))",
    "__attribute_warn_unused_result__ __attribute__ ((__warn_unused_result__))",
    "__bos(ptr) __builtin_object_size (ptr, __USE_FORTIFY_LEVEL > 1)",
    "__bos0(ptr) __builtin_object_size (ptr, 0)",
    "__errordecl(name,msg) extern void name (void) __attribute__((__error__ (msg)))",
    "__extern_always_inline extern __always_inline __attribute__ ((__gnu_inline__))",
    "__extern_inline extern __inline __attribute__ ((__gnu_inline__))", "__flexarr []",
    "__fortified_attr_access(a,o,s) __attr_access ((a, o, s))",
    "__fortify_function __extern_always_inline __attribute_artificial__",
    "__glibc_c99_flexarr_available 1", "__glibc_clang_prereq(maj,min) 0",
    "__glibc_has_attribute(attr) __has_attribute (attr)",
    "__glibc_has_builtin(name) __has_builtin (name)", "__glibc_has_extension(ext) 0",
    "__glibc_likely(cond) __builtin_expect ((cond), 1)",
    "__glibc_macro_warning(message) __glibc_macro_warning1 (GCC warning message)",
    "__glibc_macro_warning1(message) _Pragma (#message)", "__glibc_objsize(__o) __bos (__o)",
    "__glibc_objsize0(__o) __bos0 (__o)", "__glibc_unlikely(cond) __builtin_expect ((cond), 0)",
    "__intptr_t_defined", "__nonnull(params) __attribute_nonnull__ (params)", "__ptr_t void *",
    "__restrict_arr __restrict", "__returns_nonnull __attribute__ ((__returns_nonnull__))",
    "__stub___compat_bdflush", "__stub_chflags", "__stub_fchflags", "__stub_gtty", "__stub_revoke",
    "__stub_setlogin", "__stub_sigreturn", "__stub_stty",
    "__va_arg_pack() __builtin_va_arg_pack ()", "__va_arg_pack_len() __builtin_va_arg_pack_len ()",
    "__warnattr(msg) __attribute__((__warning__ (msg)))", "__wur"]

/-- Types of the header of integer types, and of those that it asks for. -/
def integerTypes : List String :=
  ["typedef unsigned char __u_char;", "typedef unsigned short int __u_short;",
    "typedef unsigned int __u_int;", "typedef unsigned long int __u_long;",
    "typedef signed char __int8_t;", "typedef unsigned char __uint8_t;",
    "typedef signed short int __int16_t;", "typedef unsigned short int __uint16_t;",
    "typedef signed int __int32_t;", "typedef unsigned int __uint32_t;",
    "typedef signed long int __int64_t;", "typedef unsigned long int __uint64_t;",
    "typedef __int8_t __int_least8_t;", "typedef __uint8_t __uint_least8_t;",
    "typedef __int16_t __int_least16_t;", "typedef __uint16_t __uint_least16_t;",
    "typedef __int32_t __int_least32_t;", "typedef __uint32_t __uint_least32_t;",
    "typedef __int64_t __int_least64_t;", "typedef __uint64_t __uint_least64_t;",
    "typedef long int __quad_t;", "typedef unsigned long int __u_quad_t;",
    "typedef long int __intmax_t;", "typedef unsigned long int __uintmax_t;",
    "typedef unsigned long int __dev_t;", "typedef unsigned int __uid_t;",
    "typedef unsigned int __gid_t;", "typedef unsigned long int __ino_t;",
    "typedef unsigned long int __ino64_t;", "typedef unsigned int __mode_t;",
    "typedef unsigned long int __nlink_t;", "typedef long int __off_t;",
    "typedef long int __off64_t;", "typedef int __pid_t;",
    "typedef struct \x7b int __val[2]; \x7d __fsid_t;", "typedef long int __clock_t;",
    "typedef unsigned long int __rlim_t;", "typedef unsigned long int __rlim64_t;",
    "typedef unsigned int __id_t;", "typedef long int __time_t;",
    "typedef unsigned int __useconds_t;", "typedef long int __suseconds_t;",
    "typedef long int __suseconds64_t;", "typedef int __daddr_t;", "typedef int __key_t;",
    "typedef int __clockid_t;", "typedef void * __timer_t;", "typedef long int __blksize_t;",
    "typedef long int __blkcnt_t;", "typedef long int __blkcnt64_t;",
    "typedef unsigned long int __fsblkcnt_t;", "typedef unsigned long int __fsblkcnt64_t;",
    "typedef unsigned long int __fsfilcnt_t;", "typedef unsigned long int __fsfilcnt64_t;",
    "typedef long int __fsword_t;", "typedef long int __ssize_t;",
    "typedef long int __syscall_slong_t;", "typedef unsigned long int __syscall_ulong_t;",
    "typedef __off64_t __loff_t;", "typedef char *__caddr_t;", "typedef long int __intptr_t;",
    "typedef unsigned int __socklen_t;", "typedef int __sig_atomic_t;", "typedef __int8_t int8_t;",
    "typedef __int16_t int16_t;", "typedef __int32_t int32_t;", "typedef __int64_t int64_t;",
    "typedef __uint8_t uint8_t;", "typedef __uint16_t uint16_t;", "typedef __uint32_t uint32_t;",
    "typedef __uint64_t uint64_t;", "typedef __int_least8_t int_least8_t;",
    "typedef __int_least16_t int_least16_t;", "typedef __int_least32_t int_least32_t;",
    "typedef __int_least64_t int_least64_t;", "typedef __uint_least8_t uint_least8_t;",
    "typedef __uint_least16_t uint_least16_t;", "typedef __uint_least32_t uint_least32_t;",
    "typedef __uint_least64_t uint_least64_t;", "typedef signed char int_fast8_t;",
    "typedef long int int_fast16_t;", "typedef long int int_fast32_t;",
    "typedef long int int_fast64_t;", "typedef unsigned char uint_fast8_t;",
    "typedef unsigned long int uint_fast16_t;", "typedef unsigned long int uint_fast32_t;",
    "typedef unsigned long int uint_fast64_t;", "typedef long int intptr_t;",
    "typedef unsigned long int uintptr_t;", "typedef __intmax_t intmax_t;",
    "typedef __uintmax_t uintmax_t;"]

/-- Macros of the header of truth values. -/
def booleanMacros : List String :=
  ["_STDBOOL_H", "bool _Bool", "true 1", "__bool_true_false_are_defined 1", "false 0"]

/-- The names of other headers of the language. -/
def otherHeaders : List String :=
  ["assert.h", "complex.h", "ctype.h", "errno.h", "fenv.h", "float.h", "inttypes.h", "iso646.h",
    "limits.h", "locale.h", "math.h", "setjmp.h", "signal.h", "stdarg.h", "stddef.h", "stdio.h",
    "stdlib.h", "string.h", "tgmath.h", "time.h", "wchar.h", "wctype.h"]

/-! ## Texts -/

/-- The definitions of macros as a text. -/
def definitions (macros : List String) : String :=
  String.join (macros.map fun m => s!"#define {m}\n")

/-- What is read before every program. -/
def predefinedText : String := definitions compilerMacros ++ definitions realMacros

/-- The text of a header. Asking for it again changes nothing. -/
def headerText? : String → Option String
  | "stdint.h" => some ("#ifndef _STDINT_H\n" ++ definitions integerMacros ++
      String.join (integerTypes.map (· ++ "\n")) ++ "#endif\n")
  | "stdbool.h" => some ("#ifndef _STDBOOL_H\n" ++ definitions booleanMacros ++ "#endif\n")
  | _ => none

end MiddleEnd.Compiler
