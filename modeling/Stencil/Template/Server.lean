import Stencil.Template.Lines

/-! # Server files

    The files of a fresh server.  They have no slots and are copied as they are. -/

namespace Stencil.Template

/-- Secrets and lifetimes of access tokens. -/
def authConfig : String := ofLines
  ["export default «",
    "  secret: process.env.JWT_SECRET || \"mysecret\",",
    "  expiresIn: \"15m\",",
    "  refreshSecret: process.env.JWT_REFRESH_SECRET || \"myanothersecret\",",
    "  refreshExpiresIn: \"7d\",",
    "»;"]

/-- The database client. -/
def databaseClient : String := ofLines
  ["import « PrismaClient » from \"@prisma/client\";",
    "",
    "const prisma = new PrismaClient();",
    "",
    "export default prisma;"]

/-- A first schema. -/
def databaseSchema : String := ofLines
  ["generator client «",
    "  provider = \"prisma-client-js\"",
    "»",
    "",
    "datasource db «",
    "  provider = \"postgresql\"",
    "  url      = env(\"DATABASE_URL\")",
    "»",
    "",
    "model User «",
    "  id           Int      @id @default(autoincrement())",
    "  name         String",
    "  email        String   @unique",
    "  passwordHash String",
    "  role         Role     @default(USER)",
    "  tokenVersion Int      @default(0)",
    "  createdAt    DateTime @default(now())",
    "  updatedAt    DateTime @updatedAt",
    "»",
    "",
    "enum Role «",
    "  ADMIN",
    "  USER",
    "»"]

/-- The first records of the database. -/
def databaseSeed : String := ofLines
  ["import « hash » from \"bcryptjs\";",
    "",
    "import prisma from \"./index\";",
    "",
    "async function main() «",
    "  const passwordHash = await hash(\"admin\", 8);",
    "",
    "  await prisma.user.upsert(«",
    "    where: « email: \"admin@admin.com\" »,",
    "    update: «»,",
    "    create: «",
    "      name: \"Admin\",",
    "      email: \"admin@admin.com\",",
    "      passwordHash,",
    "      role: \"ADMIN\",",
    "    »,",
    "  »);",
    "»",
    "",
    "main()",
    "  .catch(err => «",
    "    console.error(err);",
    "    process.exit(1);",
    "  »)",
    "  .finally(async () => «",
    "    await prisma.$disconnect();",
    "  »);"]

/-- The error that handlers raise. -/
def appError : String := ofLines
  ["class AppError «",
    "  public readonly message: string;",
    "",
    "  public readonly statusCode: number;",
    "",
    "  constructor(message: string, statusCode = 400) «",
    "    this.message = message;",
    "    this.statusCode = statusCode;",
    "  »",
    "»",
    "",
    "export default AppError;"]

/-- The check of access tokens. -/
def authMiddleware : String := ofLines
  ["import « NextFunction, Request, Response » from \"express\";",
    "import « verify » from \"jsonwebtoken\";",
    "",
    "import authConfig from \"../config/auth\";",
    "import AppError from \"../error/AppError\";",
    "",
    "interface TokenPayload «",
    "  id: string;",
    "  role: string;",
    "  iat: number;",
    "  exp: number;",
    "»",
    "",
    "const isAuth = (req: Request, res: Response, next: NextFunction): void => «",
    "  const authHeader = req.headers.authorization;",
    "",
    "  if (!authHeader) «",
    "    throw new AppError(\"ERR_SESSION_EXPIRED\", 401);",
    "  »",
    "",
    "  const [, token] = authHeader.split(\" \");",
    "",
    "  try «",
    "    const « id, role » = verify(token, authConfig.secret) as TokenPayload;",
    "    req.user = « id, role »;",
    "  » catch (err) «",
    "    throw new AppError(\"Invalid token\", 403);",
    "  »",
    "",
    "  return next();",
    "»;",
    "",
    "export default isAuth;"]

/-- What a request carries besides its own properties. -/
def expressTypes : String := ofLines
  ["declare namespace Express «",
    "  export interface Request «",
    "    user: « id: string; role: string »;",
    "  »",
    "»"]

/-- The log. -/
def logger : String := ofLines
  ["import pino from \"pino\";",
    "",
    "const logger = pino(«",
    "  transport: «",
    "    target: \"pino-pretty\",",
    "    options: « colorize: true, translateTime: \"SYS:standard\" »,",
    "  »,",
    "»);",
    "",
    "export default logger;"]

/-- The renewal of access tokens. -/
def refreshToken : String := ofLines
  ["import « Response » from \"express\";",
    "import « sign » from \"jsonwebtoken\";",
    "",
    "import authConfig from \"../config/auth\";",
    "",
    "interface TokenUser «",
    "  id: number;",
    "  role: string;",
    "  tokenVersion: number;",
    "»",
    "",
    "export const createAccessToken = (user: TokenUser): string =>",
    "  sign(« id: user.id, role: user.role », authConfig.secret, «",
    "    expiresIn: authConfig.expiresIn,",
    "  »);",
    "",
    "export const createRefreshToken = (user: TokenUser): string =>",
    "  sign(« id: user.id, tokenVersion: user.tokenVersion », authConfig.refreshSecret, «",
    "    expiresIn: authConfig.refreshExpiresIn,",
    "  »);",
    "",
    "export const sendRefreshToken = (res: Response, token: string): void => «",
    "  res.cookie(\"jrt\", token, « httpOnly: true »);",
    "»;"]

/-- The application, to which routers are added. -/
def app : String := ofLines
  ["import \"express-async-errors\";",
    "import cookieParser from \"cookie-parser\";",
    "import cors from \"cors\";",
    "import express, « NextFunction, Request, Response » from \"express\";",
    "",
    "import AppError from \"./error/AppError\";",
    "import logger from \"./utils/logger\";",
    "",
    "const app = express();",
    "",
    "app.use(cors(« credentials: true, origin: process.env.FRONTEND_URL »));",
    "app.use(cookieParser());",
    "app.use(express.json());",
    "",
    "app.use(async (err: Error, req: Request, res: Response, _: NextFunction) => «",
    "  if (err instanceof AppError) «",
    "    logger.warn(err);",
    "    return res.status(err.statusCode).json(« error: err.message »);",
    "  »",
    "",
    "  logger.error(err);",
    "  return res.status(500).json(« error: \"Internal server error\" »);",
    "»);",
    "",
    "export default app;"]

/-- The entry point. -/
def server : String := ofLines
  ["import app from \"./app\";",
    "import logger from \"./utils/logger\";",
    "",
    "const port = process.env.PORT || 8080;",
    "",
    "app.listen(port, () => «",
    "  logger.info(`Server started on port: $«port»`);",
    "»);"]

end Stencil.Template
